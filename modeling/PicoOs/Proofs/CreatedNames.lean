import PicoOs.Proofs.OpenFlags
import PicoOs.Proofs.FileCalls

/-! The names that directories get, and the room that a record has for them. Nothing looks at
the length of a name before it is read. -/

namespace PicoOs.Kernel
open Library PicoOs.Std FileSystem

variable {fs after : FileSystem} {file directory target : FileRef} {name : ImmutableString}
  {entries : HashMap ImmutableString FileRef}

/-- Reading record by record, as often as it is asked for and until there is nothing more. -/
def readRecords (fs : FileSystem) (entries : HashMap ImmutableString FileRef) :
    Nat → Option ImmutableString → Except Crash (List (ImmutableString × UInt32))
  | 0, _ => .ok []
  | rounds + 1, iterator => do
    match ← fs.readEntry entries iterator directoryInfoSize with
    | (none, _) => .ok []
    | (some record, iterator) => do
      let records ← readRecords fs entries rounds iterator
      .ok (record :: records)

/-- What is asked of the directories: a name fits into a record with its terminator, no read of a
handle that stands at an entry stops the kernel, and a new handle can be read to the end. -/
structure Listable (fs : FileSystem) : Prop where
  names : ∀ directory < fs.next, ∀ entries, (fs.files directory).entries = some entries →
    ∀ name, (entries.getOpt name).isSome → name.length + 1 ≤ directoryNameSize
  reads : ∀ directory < fs.next, ∀ entries, (fs.files directory).entries = some entries →
    ∀ iterator : Option ImmutableString, (∀ name, iterator = some name →
      (entries.getOpt name).isSome) →
      fs.readEntry entries iterator directoryInfoSize ≠ .error .verify
  records : ∀ directory < fs.next, ∀ entries, (fs.files directory).entries = some entries →
    ∀ rounds, ∃ records, readRecords fs entries rounds entries.iter = .ok records

private theorem readEntry_short (fs : FileSystem)
    (short : ∀ name, (entries.getOpt name).isSome → name.length < directoryNameSize)
    {iterator : Option ImmutableString}
    (present : ∀ name, iterator = some name → (entries.getOpt name).isSome) :
    ∃ result, fs.readEntry entries iterator directoryInfoSize = .ok result ∧
    ∀ name, result.2 = some name → (entries.getOpt name).isSome := by
  cases iterator with
  | none => exact ⟨(none, none), rfl, nofun⟩
  | some position =>
    obtain ⟨file, there⟩ := Option.isSome_iff_exists.mp (present position rfl)
    have copied : strcpyTo position directoryNameSize = .ok position := by
      rw [strcpyTo, require_ok.mpr (Nat.succ_le_of_lt (short position (present position rfl)))]
      rfl
    refine ⟨(some (position, (fs.files file).ino), entries.advance position), ?_,
      fun name next => HashMap.advance_present next⟩
    simp only [readEntry, HashMap.at?_eq, there, Option.map_some, must, copied, require, le_refl,
      if_true, bind, Except.bind]

private theorem NamesFit.listable (names : NamesFit fs) : Listable fs := by
  have short {directory : FileRef} (inside : directory < fs.next)
    {entries : HashMap ImmutableString FileRef}
      (isDirectory : (fs.files directory).entries = some entries) (name : ImmutableString)
        (present : (entries.getOpt name).isSome) :
      name.length < directoryNameSize := by
    obtain ⟨target, there⟩ := Option.isSome_iff_exists.mp present
    exact names directory inside entries name target isDirectory there
  refine ⟨fun directory inside entries isDirectory => short inside isDirectory, ?_, ?_⟩
  · intro directory inside entries isDirectory iterator present crashed
    obtain ⟨result, done, _⟩ := readEntry_short fs (short inside isDirectory) present
    rw [done] at crashed
    cases crashed
  · intro directory inside entries isDirectory rounds
    have start : ∀ name, entries.iter = some name → (entries.getOpt name).isSome :=
      fun name first => HashMap.iter_present first
    generalize entries.iter = iterator at start
    induction rounds generalizing iterator with
    | zero => exact ⟨[], rfl⟩
    | succ rounds ih =>
      obtain ⟨⟨info, further⟩, done, present⟩ := readEntry_short fs (short inside isDirectory) start
      cases info with
      | none => exact ⟨[], by simp only [readRecords, done, bind, Except.bind]⟩
      | some record =>
        obtain ⟨records, rest⟩ := ih further present
        exact ⟨record :: records, by simp only [readRecords, done, rest, bind, Except.bind]⟩

private theorem Listable.namesFit (listable : Listable fs) : NamesFit fs :=
  fun directory inside entries name _ isDirectory there =>
  listable.names directory inside entries isDirectory name (Option.isSome_of_eq_some there)

namespace KernelFiles
variable {kernel last start : KernelFiles} {process : Nat} {call : SystemCall}

def Fitting (kernel : KernelFiles) (event : FileEvent) : Prop :=
  ∀ pathname flags mode path, event.call = .open pathname flags mode →
    resolve (kernel.processes event.process) pathname = .ok path →
    CreatesFitting kernel.fileSystem path flags

/-- The step lemma. -/
theorem Serves.namesFit (serves : kernel.Serves process call last)
    (closed : kernel.fileSystem.Closed)
    (names : NamesFit kernel.fileSystem) {surroundings : Surroundings}
    (fits : kernel.Fitting ⟨process, call, surroundings⟩) :
    NamesFit last.fileSystem := by
  cases serves with
  | nothing | reads | prints | spawns | enters => exact names
  | @writes fd bytes file offset held => exact names.append file bytes
  | @opens pathname flags mode path result after resolved opens =>
    cases opens with
    | failed error => exact names
    | opened files made =>
        exact names.opened closed files (fits pathname flags mode path rfl resolved)

/-- What a call has created has a name that the directory lists afterwards. -/
theorem createFile_listed {path parent : Path} {directory : FileRef} {result : Return}
    (closed : kernel.fileSystem.Closed)
    (missing : kernel.fileSystem.tryLookup path = .ok (.error .ENOENT))
    (up : path.parent = .ok parent)
    (found : kernel.fileSystem.tryLookup parent = .ok (.ok directory))
    (named : path.filename = .ok name)
    (created : kernel.createFile process path = .ok (result, last)) :
    directory < last.fileSystem.next ∧
    ∃ entries, (last.fileSystem.files directory).entries = some entries ∧
    (entries.getOpt name).isSome := by
  obtain ⟨entries, isDirectory, _⟩ := parent_lacks missing up named found
  have old := closed.existing found
  have still : (kernel.fileSystem.newMemoryFile.files directory).entries = some entries := by
    rw [← isDirectory]
    exact congrArg VirtualFile.entries (kernel.fileSystem.allocate_old _ old)
  obtain ⟨other, sameUp, created⟩ := bind_ok.mp created
  obtain rfl : other = parent := Except.ok.inj ((ofPath_ok.mp sameUp).symm.trans up)
  obtain ⟨looked, sameFound, created⟩ := bind_ok.mp created
  rw [found] at sameFound
  cases Except.ok.inj sameFound
  obtain ⟨_, created⟩ := require_bind_ok.mp created
  obtain ⟨filename, sameName, created⟩ := bind_ok.mp created
  obtain rfl : filename = name := Except.ok.inj ((ofPath_ok.mp sameName).symm.trans named)
  obtain ⟨_, _, same, _⟩ := openFile_ok created
  rw [same]
  refine ⟨old.trans (Nat.lt_succ_self _), entries.set filename kernel.fileSystem.next, ?_, ?_⟩
  · rw [FileSystem.setEntry, modify_same, VirtualFile.setEntry_directory still]
    rfl
  · rw [HashMap.getOpt_set_same]
    rfl

/-- If all names fit after a call, then the call has not created a name that is too long. -/
theorem fitting_of_namesFit {event : FileEvent} (closed : kernel.fileSystem.Closed)
    (executed : machine.execute kernel event = .ok last)
    (names : NamesFit last.fileSystem) : kernel.Fitting event := by
  intro pathname flags mode path call resolved parent directory name asked missing up found named
  obtain ⟨process, call, surroundings⟩ := event
  subst call
  have mapped : Prod.snd <$> kernel.sysOpen process pathname flags = .ok last := executed
  have served : kernel.sysOpen process pathname flags = kernel.createFile process path := by
    simp only [sysOpen, resolved, missing, bind, Except.bind, true_and]
    rw [if_pos asked]
  rw [served] at mapped
  cases returned : kernel.createFile process path with
  | error fault =>
    rw [returned] at mapped
    cases mapped
  | ok value =>
    rw [returned] at mapped
    obtain ⟨result, final⟩ := value
    obtain rfl : final = last := Except.ok.inj mapped
    obtain ⟨inside, entries, isDirectory, present⟩ :=
      createFile_listed closed missing up found named returned
    obtain ⟨target, there⟩ := Option.isSome_iff_exists.mp present
    exact names directory inside entries name target isDirectory there

/-- All directories can be listed all the time exactly if the names in the flash have room in a
record, and so has every name under which a file is created. -/
theorem names_listable_iff {memory : Memory} {flashRoot depth : Nat} {uart : UART}
    {history : List (KernelFiles × FileEvent)}
    (booted : boot memory flashRoot depth uart = .ok start)
    (run : machine.Run start history kernel) :
    ((∀ entry ∈ history, Listable entry.1.fileSystem) ∧ Listable kernel.fileSystem) ↔
      NamesFit start.fileSystem ∧ ∀ entry ∈ history, entry.1.Fitting entry.2 := by
  induction run with
  | start => exact ⟨fun both => ⟨both.2.namesFit, nofun⟩, fun both => ⟨nofun, both.1.listable⟩⟩
  | @step history state event next run permitted executed ih =>
    have valid := reachable_valid (boot_valid booted) ⟨history, run⟩
    have closed := valid.rooted.valid.closed
    have serves := execute_serves valid executed
    simp only [List.forall_mem_append, List.forall_mem_singleton]
    constructor
    · intro ⟨⟨earlier, before⟩, listable⟩
      obtain ⟨names, fits⟩ := ih.mp ⟨earlier, before⟩
      exact ⟨names, fits, fitting_of_namesFit closed executed listable.namesFit⟩
    · intro ⟨names, fits, last⟩
      obtain ⟨earlier, before⟩ := ih.mpr ⟨names, fits⟩
      exact ⟨⟨earlier, before⟩, (serves.namesFit closed before.namesFit last).listable⟩

/-- A run in which a file is created and the directory is read. -/
theorem names_listable_iff_new :
    ∃ start kernel history, boot shellFlash 4096 1 (.initial 0 fun _ => 0) = .ok start ∧
    machine.Run start history kernel ∧ history.map Prod.snd = [.quiet 0 (.open (literal "/new") O_CREAT 0),
      .quiet 0 (.open (literal "/") 0 0), .quiet 0 (.read 4 256)] ∧
    (((∀ entry ∈ history, Listable entry.1.fileSystem) ∧ Listable kernel.fileSystem) ↔
      NamesFit start.fileSystem ∧ ∀ entry ∈ history, entry.1.Fitting entry.2) := by
  have played : ((boot shellFlash 4096 1 (.initial 0 fun _ => 0)).toOption.bind fun start =>
      machine.after start [.quiet 0 (.open (literal "/new") O_CREAT 0), .quiet 0 (.open (literal "/") 0 0),
        .quiet 0 (.read 4 256)]).isSome := by
    decide +kernel
  obtain ⟨kernel, ran⟩ := Option.isSome_iff_exists.mp played
  obtain ⟨start, booted, ran⟩ := Option.bind_eq_some_iff.mp ran
  obtain ⟨history, run, events⟩ := Machine.run_after ran
  have began := toOption_some.mp booted
  exact ⟨start, kernel, history, began, run, events, names_listable_iff began run⟩

def longName : ImmutableString := List.replicate directoryNameSize 97

def longListing : List FileEvent :=
  [.quiet 0 (.open (literal "/" ++ longName) O_CREAT 0), .quiet 0 (.open (literal "/") 0 0)] ++ List.replicate 4 (.quiet 0 (.read 4 256))

/-- Its next read stops the kernel. -/
theorem name_too_long : ∃ start kernel, boot shellFlash 4096 1 (.initial 0 fun _ => 0) = .ok start ∧
    NamesFit start.fileSystem ∧
    machine.after start longListing = some kernel ∧
    fault? (kernel.sysRead ⟨fun _ => [], fun _ => true, 0, 1⟩ 0 4 256) = some .verify ∧
    ¬Listable kernel.fileSystem := by
  have played : ((boot shellFlash 4096 1 (.initial 0 fun _ => 0)).toOption.bind fun start =>
      (machine.after start longListing).map fun kernel => (namesFit start.fileSystem,
        fault? (kernel.sysRead ⟨fun _ => [], fun _ => true, 0, 1⟩ 0 4 256),
          decide (kernel.fileSystem.root < kernel.fileSystem.next),
        (kernel.fileSystem.files kernel.fileSystem.root).entries.map fun entries =>
          (entries.getOpt longName).isSome)) =
      some (true, some .verify, true, some true) := by decide +kernel
  obtain ⟨start, booted, rest⟩ := Option.bind_eq_some_iff.mp played
  obtain ⟨kernel, ran, facts⟩ := Option.map_eq_some_iff.mp rest
  obtain ⟨fits, facts⟩ := Prod.mk.inj facts
  obtain ⟨crashed, facts⟩ := Prod.mk.inj facts
  obtain ⟨inside, listed⟩ := Prod.mk.inj facts
  obtain ⟨entries, isDirectory, present⟩ := Option.map_eq_some_iff.mp listed
  refine ⟨start, kernel, toOption_some.mp booted, namesFit_sound fits, ran, crashed,
    fun listable => ?_⟩
  have room : longName.length + 1 ≤ directoryNameSize :=
    listable.names _ (of_decide_eq_true inside) entries isDirectory longName present
  rw [longName, List.length_replicate] at room
  exact Nat.not_succ_le_self _ room

end KernelFiles
end PicoOs.Kernel
