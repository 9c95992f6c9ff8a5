import PicoOs.Proofs.FileSteps

/-! Runs of system calls. Files are never removed and names are never bound again, so that
a directory that a process has entered stays where it is. -/

namespace PicoOs.Kernel
open Library PicoOs.Std FileSystem

namespace KernelFiles
variable {kernel after start : KernelFiles} {process : Nat} {call : SystemCall}

structure Valid (kernel : KernelFiles) : Prop where
  rooted : Rooted kernel.fileSystem
  processes : ∀ process < kernel.next, (kernel.processes process).Fits kernel.fileSystem

theorem Valid.formed (valid : kernel.Valid) : kernel.Formed where
  closed := valid.rooted.valid.closed
  numbered process running := (valid.processes process running).numbered

theorem Valid.change {fs : FileSystem} {files : ProcessFiles} {uart : UART} (valid : kernel.Valid)
    (still : fs.Valid)
    (continues : kernel.fileSystem.Continues fs) (fits : files.Fits fs) :
    Valid { kernel.modifyProcess process files with fileSystem := fs, uart } where
  rooted := valid.rooted.grows still continues.toGrows continues.root
  processes other running := by
    have updated : (Function.update kernel.processes process files other).Fits fs := by
      rw [Function.update_apply]
      split
      next => exact fits
      next => exact (valid.processes other running).continues valid.rooted.valid.closed continues
    exact updated

private theorem Valid.changeProcess {files : ProcessFiles} {uart : UART} (valid : kernel.Valid)
    (fits : files.Fits kernel.fileSystem) :
    Valid { kernel.modifyProcess process files with uart } :=
  valid.change valid.rooted.valid (.refl _) fits

/-- The step lemma: every call keeps the invariant, and lets the files go on. -/
theorem Serves.valid (serves : kernel.Serves process call after) (valid : kernel.Valid)
    (running : process < kernel.next) :
    after.Valid ∧ kernel.fileSystem.Continues after.fileSystem := by
  have fits := valid.processes process running
  cases serves with
  | nothing => exact ⟨valid, .refl _⟩
  | reads held reads idle =>
      exact ⟨valid.changeProcess (fits.replace held (reads.fits (fits.handles _ _ held))), .refl _⟩
  | @writes fd bytes file offset held =>
    have handle := fits.handles fd _ held
    obtain ⟨still, continues⟩ := append_continues valid.rooted.valid file handle.1 bytes
    have moved : VirtualFileHandle.Fits _ (.memoryFile file (offset + bytes.length)) :=
      handle.grows continues.toGrows
    exact ⟨valid.change still continues ((fits.continues valid.rooted.valid.closed continues).replace held moved), continues⟩
  | prints held => exact ⟨valid.changeProcess (fits.replace held trivial), .refl _⟩
  | @opens pathname flags mode path result after resolved opens =>
    cases opens with
    | failed error => exact ⟨valid, .refl _⟩
    | @opened file fs handle files made =>
      obtain ⟨still, continues, old⟩ := opened_continues valid.rooted.valid files
      have right := VirtualFileHandle.createHandle_fits still old made
      exact ⟨valid.change still continues ((fits.continues valid.rooted.valid.closed continues).add right), continues⟩
  | @spawns pathname fileActions attributes arguments environment created constructed =>
    have new := ProcessFiles.construct_fits valid.rooted constructed
    refine ⟨⟨valid.rooted, fun other running => ?_⟩, .refl _⟩
    have updated : (Function.update kernel.processes kernel.next
        { created with workingDirectory := (kernel.processes process).workingDirectory } other).Fits
          kernel.fileSystem := by
      rw [Function.update_apply]
      split
      next => exact ⟨new.numbered, new.handles, fits.directory⟩
      next notNew =>
        exact valid.processes other (Nat.lt_of_le_of_ne (Nat.le_of_lt_succ running) notNew)
    exact updated
  | @enters pathname path file found isDirectory =>
    exact ⟨valid.changeProcess ⟨fits.numbered, fits.handles, file, found, isDirectory⟩, .refl _⟩

theorem boot_valid {memory : Memory} {flashRoot depth : Nat} {uart : UART}
    (booted : boot memory flashRoot depth uart = .ok kernel) :
    kernel.Valid := by
  obtain ⟨fs, files, booted⟩ := bind_ok.mp booted
  obtain ⟨shellFile, _, booted⟩ := bind_ok.mp booted
  split at booted
  next =>
    obtain ⟨created, constructed, booted⟩ := bind_ok.mp booted
    cases Except.ok.inj booted
    have rooted := bootFiles_rooted files
    exact ⟨rooted, fun _ _ => ProcessFiles.construct_fits rooted constructed⟩
  next => cases booted

/-- A step of the machine is a call that has returned. -/
theorem execute_serves {event : FileEvent} (valid : kernel.Valid)
    (executed : machine.execute kernel event = .ok after) :
    kernel.Serves event.process event.call after := by
  have served : Prod.snd <$> kernel.syscall event.surroundings event.process event.call =
    .ok after := executed
  cases returned : kernel.syscall event.surroundings event.process event.call with
  | error fault =>
    rw [returned] at served
    cases served
  | ok value =>
    rw [returned] at served
    obtain ⟨result, last⟩ := value
    cases Except.ok.inj served
    exact syscall_serves valid.rooted.valid.closed returned

theorem reachable_valid (initial : start.Valid) (reachable : machine.Reachable start kernel) :
    kernel.Valid :=
  reachable.invariant Valid initial fun valid permitted executed =>
    ((execute_serves valid executed).valid valid permitted).1

/-- What is promised of a working directory: it is absolute and leads to a directory, and the
paths that are resolved from it can be looked up. -/
structure InDirectory (kernel : KernelFiles) (process : Nat) : Prop where
  absolute : (kernel.processes process).workingDirectory.isAbsolute
  directory : ∃ file entries, kernel.fileSystem.tryLookup
    (kernel.processes process).workingDirectory = .ok (.ok file) ∧
    (kernel.fileSystem.files file).format = ModeFlags.directory ∧
      (kernel.fileSystem.files file).entries = some entries
  opens : ∀ pathname flags, kernel.sysOpen process pathname flags ≠ .error .verify
  enters : ∀ pathname, kernel.sysChdir process pathname ≠ .error .verify

theorem Valid.inDirectory (valid : kernel.Valid) (running : process < kernel.next) :
    kernel.InDirectory process := by
  obtain ⟨file, found, isDirectory⟩ := (valid.processes process running).directory
  obtain ⟨absolute, _⟩ := tryLookup_ok.mp found
  have closed := valid.rooted.valid.closed
  obtain ⟨entries, there⟩ := Option.isSome_iff_exists.mp
    ((valid.rooted.valid.files file (closed.existing found)).directory isDirectory)
  refine ⟨absolute, ⟨file, entries, found, isDirectory, there⟩, fun pathname flags crashed => ?_,
    fun pathname crashed => ?_⟩
  · exact ((sysOpen_yields closed process pathname flags).fault crashed).2 rfl absolute
  · exact ((sysChdir_yields kernel process pathname).fault crashed).2 rfl absolute

/-- Whatever the processes do, the working directory of each of them stays a directory. -/
theorem working_directories_valid {memory : Memory} {flashRoot depth : Nat} {uart : UART}
    (booted : boot memory flashRoot depth uart = .ok start)
    (reachable : machine.Reachable start kernel) :
    ∀ process < kernel.next, kernel.InDirectory process :=
  fun _ running => (reachable_valid (boot_valid booted) reachable).inDirectory running

def shellFlash : Memory := fun address => (record 2 1 256 4136 ++ entry ++ record 3 0x753 4 4432 ++
    [127, 69, 76, 70]).getD (address - 4096) 0
where
  word (value : Nat) : List UInt8 :=
    [.ofNat value, .ofNat (value / 2 ^ 8), .ofNat (value / 2 ^ 16), .ofNat (value / 2 ^ 24)]
  record (ino mode size data : Nat) : List UInt8 :=
    [1, ino, mode, 0, size, 0, 0, 0, 0, data].flatMap word
  entry : List UInt8 := literal "Shell.elf" ++ List.replicate 243 0 ++ word 4392

def FileEvent.quiet (process : Nat) (call : SystemCall) : FileEvent :=
  ⟨process, call, ⟨fun _ => [], fun _ => true, 0, 1⟩⟩

/-- The shell enters `/dev` and spawns a process, which goes back to the root. -/
theorem working_directories_valid_two :
    ∃ start kernel, boot shellFlash 4096 1 (.initial 0 fun _ => 0) = .ok start ∧
    machine.Reachable start kernel ∧ kernel.next = 2 ∧
    ∀ process < kernel.next, kernel.InDirectory process := by
  have played : ((boot shellFlash 4096 1 (.initial 0 fun _ => 0)).toOption.bind fun start =>
      (machine.after start [.quiet 0 (.chdir (literal "dev")), .quiet 0 (.posixSpawn (literal "/bin/Shell.elf") false false [] []),
        .quiet 1 (.chdir (literal ".."))]).map next) = some 2 := by decide +kernel
  obtain ⟨start, booted, rest⟩ := Option.bind_eq_some_iff.mp played
  obtain ⟨kernel, ran, two⟩ := Option.map_eq_some_iff.mp rest
  have began := toOption_some.mp booted
  have reachable := Machine.reachable_after ran
  exact ⟨start, kernel, began, reachable, two, working_directories_valid began reachable⟩

end KernelFiles
end PicoOs.Kernel
