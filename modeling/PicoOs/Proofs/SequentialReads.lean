import PicoOs.Proofs.FileRuns

/-! What comes out of a file that is read piece by piece through a handle that has just been
made. Any other calls may be served between the reads, as long as the file keeps its bytes. -/

namespace PicoOs.Kernel
open Library PicoOs.Std FileSystem

structure Sequential (data : List UInt8) (sizes : List Nat)
    (pieces : List (List UInt8)) : Prop where
  count : pieces.length = sizes.length
  filled : ∀ (index size : Nat) piece, sizes[index]? = some size → pieces[index]? = some piece →
    piece.length = min size (data.length - (pieces.take index).flatten.length)
  nothing : ∀ (index size : Nat) piece, sizes[index]? = some size → pieces[index]? = some piece →
    (piece.length = 0 ↔ size = 0 ∨ (pieces.take index).flatten.length = data.length)
  whole : pieces.flatten = data.take pieces.flatten.length

namespace Sequential
variable {data : List UInt8} {sizes : List Nat} {pieces : List (List UInt8)} {size : Nat}

theorem nil (data : List UInt8) : Sequential data [] [] := ⟨rfl, nofun, nofun, rfl⟩

theorem length_le (sequential : Sequential data sizes pieces) :
    pieces.flatten.length ≤ data.length := by
  have lengths := congrArg List.length sequential.whole
  rw [List.length_take] at lengths
  omega

private theorem concat (sequential : Sequential data sizes pieces) (size : Nat) :
    Sequential data (sizes ++ [size]) (pieces ++ [(data.drop pieces.flatten.length).take size]) := by
  have inside := sequential.length_le
  have same := sequential.count
  have length : ((data.drop pieces.flatten.length).take size).length =
    min size (data.length - pieces.flatten.length) := by
    rw [List.length_take, List.length_drop]
  have split : ∀ (index other : Nat) piece, (sizes ++ [size])[index]? = some other →
      (pieces ++ [(data.drop pieces.flatten.length).take size])[index]? = some piece →
      (sizes[index]? = some other ∧ pieces[index]? = some piece ∧
          (pieces ++ [(data.drop pieces.flatten.length).take size]).take index =
            pieces.take index) ∨
        (size = other ∧ (data.drop pieces.flatten.length).take size = piece ∧
          (pieces ++ [(data.drop pieces.flatten.length).take size]).take index = pieces) := by
    intro index other piece first second
    obtain earlier | later := Nat.lt_or_ge index pieces.length
    · rw [List.getElem?_append_left (same ▸ earlier)] at first
      rw [List.getElem?_append_left earlier] at second
      exact Or.inl ⟨first, second, List.take_append_of_le_length earlier.le⟩
    · have last : index = pieces.length := by
        have bound := (List.getElem?_eq_some_iff.mp second).1
        rw [List.length_append, List.length_singleton] at bound
        omega
      subst last
      rw [same, List.getElem?_concat_length] at first
      rw [List.getElem?_concat_length] at second
      exact Or.inr ⟨Option.some.inj first, Option.some.inj second, List.take_left⟩
  refine ⟨by rw [List.length_append, List.length_append, same]; rfl, ?_, ?_, ?_⟩
  · intro index other piece first second
    obtain ⟨before, there, front⟩ | ⟨rfl, rfl, front⟩ := split index other piece first second
    · rw [front]
      exact sequential.filled index other piece before there
    · rw [front, length]
  · intro index other piece first second
    obtain ⟨before, there, front⟩ | ⟨rfl, rfl, front⟩ := split index other piece first second
    · rw [front]
      exact sequential.nothing index other piece before there
    · rw [front, length]
      omega
  · rw [List.flatten_append, List.flatten_singleton, List.length_append,
      List.take_add, ← sequential.whole, length]
    congr 1
    rw [List.take_eq_take_iff, List.length_drop]
    omega

end Sequential

inductive Standing (fs : FileSystem) (file : FileRef) (data : List UInt8) (offset : Nat) :
    VirtualFileHandle → Prop where
  | memoryFile (kind : (fs.files file).kind = .memoryFile data) :
      Standing fs file data offset (.memoryFile file offset)
  | flashFile (kind : (fs.files file).kind = .flashFile data) :
      Standing fs file data offset (.flashFile file offset)

namespace Standing
variable {fs after : FileSystem} {file : FileRef} {data : List UInt8} {offset : Nat}
  {handle : VirtualFileHandle}

theorem fresh (content : (fs.files file).content = some data) :
    Standing fs file data 0 (fs.createHandleImpl file) := by
  unfold VirtualFile.content at content
  unfold createHandleImpl
  cases kind : (fs.files file).kind with
  | memoryFile other =>
    rw [kind] at content
    obtain rfl := Option.some.inj content
    exact .memoryFile kind
  | flashFile other =>
    rw [kind] at content
    obtain rfl := Option.some.inj content
    exact .flashFile kind
  | directory entries =>
    rw [kind] at content
    cases content
  | consoleFile =>
    rw [kind] at content
    cases content

private theorem handleFile (standing : Standing fs file data offset handle) :
    fs.handleFile handle = file := by
  cases standing <;> rfl

theorem existing (standing : Standing fs file data offset handle) (fits : handle.Fits fs) :
    file < fs.next := by
  cases standing with
  | memoryFile | flashFile => exact fits.1

/-- The file is still of its class, so that it is enough that the bytes are the same. -/
theorem kept (standing : Standing fs file data offset handle)
    (grows : (fs.files file).kind.Grows (after.files file).kind)
    (content : (after.files file).content = some data) :
    Standing after file data offset handle := by
  unfold VirtualFile.content at content
  cases standing with
  | memoryFile kind =>
    rw [kind] at grows
    generalize later : (after.files file).kind = other at grows content
    cases grows with
    | memoryFile _ bytes =>
      obtain rfl := Option.some.inj content
      exact .memoryFile later
  | flashFile kind =>
    rw [kind] at grows
    generalize later : (after.files file).kind = other at grows content
    cases grows with
    | flashFile _ => exact .flashFile later

/-- A read returns what fits into the buffer of what is left, and goes on behind it. -/
theorem readHandle (standing : Standing fs file data offset handle) (inside : offset ≤ data.length)
    (uart : UART)
    (surroundings : Surroundings) (count : Nat) :
    ∃ further, fs.readHandle uart surroundings handle count =
        .ok (((data.drop offset).take count).length, .bytes ((data.drop offset).take count),
          further, uart) ∧
      Standing fs file data (offset + ((data.drop offset).take count).length) further := by
  have read : readData data offset count = .ok ((data.drop offset).take count,
    offset + ((data.drop offset).take count).length) := by
    simp only [readData, slice, require, if_pos inside, bind, Except.bind]
  cases standing with
  | memoryFile kind =>
    refine ⟨_, ?_, .memoryFile kind⟩
    simp only [FileSystem.readHandle, kind, read, bind, Except.bind]
  | flashFile kind =>
    refine ⟨_, ?_, .flashFile kind⟩
    simp only [FileSystem.readHandle, kind, read, bind, Except.bind]

end Standing

namespace KernelFiles
variable {kernel after start first : KernelFiles} {process caller : Nat} {fd : Int} {file : FileRef}
  {data : List UInt8} {offset : Nat}
  {handle : VirtualFileHandle} {call : SystemCall}

def readSize (process : Nat) (fd : Int) (caller : Nat) : SystemCall → Option Nat
  | .read other count => if caller = process ∧ other = fd then some count else none
  | _ => none

def readThrough (kernel : KernelFiles) (surroundings : Surroundings) (process : Nat) (fd : Int)
    (count : Nat) :
    Except Crash (Nat × Delivery) := do
  let handle ← (kernel.processes process).getFileHandle fd
  let (value, delivery, _, _) ← kernel.fileSystem.readHandle kernel.uart surroundings handle count
  .ok (value, delivery)

def readSizes (process : Nat) (fd : Int) (history : List (KernelFiles × FileEvent)) : List Nat :=
  history.filterMap fun entry => readSize process fd entry.2.process entry.2.call

def answers (process : Nat) (fd : Int) (history : List (KernelFiles × FileEvent)) :
    List (Nat × Delivery) :=
  history.filterMap fun entry =>
    (readSize process fd entry.2.process entry.2.call).bind fun count =>
    (entry.1.readThrough entry.2.surroundings process fd count).toOption

def answer (bytes : List UInt8) : Nat × Delivery := (bytes.length, .bytes bytes)

def Stands (kernel : KernelFiles) (process : Nat) (fd : Int) (file : FileRef) (data : List UInt8)
    (offset : Nat) : Prop :=
  ∃ handle, (kernel.processes process).handles.getOpt fd = some handle ∧
    Standing kernel.fileSystem file data offset handle

theorem Stands.readThrough (stands : kernel.Stands process fd file data offset)
    (inside : offset ≤ data.length)
    (surroundings : Surroundings) (count : Nat) :
    kernel.readThrough surroundings process fd count =
      .ok (answer ((data.drop offset).take count)) := by
  obtain ⟨handle, held, standing⟩ := stands
  obtain ⟨further, read, -⟩ := standing.readHandle inside kernel.uart surroundings count
  simp only [KernelFiles.readThrough, ProcessFiles.getFileHandle, must, held, read,
    bind, Except.bind]
  rfl

private theorem Stands.sysRead (stands : kernel.Stands process fd file data offset)
    (inside : offset ≤ data.length)
    (surroundings : Surroundings) (count : Nat) :
    ∃ after, kernel.sysRead surroundings process fd count =
        .ok (⟨toI32 ((data.drop offset).take count).length,
          .delivery (.bytes ((data.drop offset).take count))⟩, after) ∧
      after.Stands process fd file data (offset + ((data.drop offset).take count).length) := by
  obtain ⟨handle, held, standing⟩ := stands
  obtain ⟨further, read, moved⟩ := standing.readHandle inside kernel.uart surroundings count
  refine ⟨{ kernel.modifyProcess process { kernel.processes process with
    handles := (kernel.processes process).handles.set fd further } with uart :=
      kernel.uart }, ?_, further, ?_, moved⟩
  · simp only [KernelFiles.sysRead, ProcessFiles.getFileHandle, must, held, read, bind, Except.bind]
  · simp only [modifyProcess, Function.update_self, HashMap.getOpt_set_same]

private theorem Stands.sysFstat (stands : kernel.Stands process fd file data offset)
    (size : (kernel.fileSystem.files file).size = data.length) :
    ∃ info, kernel.sysFstat process fd = .ok (⟨0, .fileInfo info⟩, kernel) ∧
    info.size = data.length := by
  obtain ⟨handle, held, standing⟩ := stands
  simp only [KernelFiles.sysFstat, ProcessFiles.getFileHandle, must, held, standing.handleFile,
    bind, Except.bind]
  exact ⟨_, rfl, size⟩

private theorem getOpt_kept {caller : Nat} {other : Int} {further : VirtualFileHandle}
    (kernel : KernelFiles)
    (different : ¬(caller = process ∧ other = fd)) :
    (Function.update kernel.processes caller { kernel.processes caller with
      handles := (kernel.processes caller).handles.set other further } process).handles.getOpt fd =
      (kernel.processes process).handles.getOpt fd := by
  by_cases same : process = caller
  · subst same
    rw [Function.update_self]
    exact HashMap.getOpt_set_other _ _ fun equal => different ⟨rfl, equal.symm⟩
  · rw [Function.update_of_ne same]

/-- A write through the handle itself has nothing to write, if the file keeps its bytes. -/
theorem Serves.held (serves : kernel.Serves caller call after) (valid : kernel.Valid)
    (running : process < kernel.next)
    (held : (kernel.processes process).handles.getOpt fd = some handle)
    (standing : Standing kernel.fileSystem file data offset handle)
    (content : (after.fileSystem.files file).content = some data)
    (other : readSize process fd caller call = none) :
    (after.processes process).handles.getOpt fd = some handle := by
  cases serves with
  | nothing => exact held
  | @reads number count _ further uart there reads idle =>
    have different : ¬(caller = process ∧ number = fd) := by
      intro same
      rw [readSize, if_pos same] at other
      cases other
    exact (getOpt_kept kernel different).trans held
  | @writes number bytes target position there =>
    by_cases same : caller = process ∧ number = fd
    · obtain ⟨rfl, rfl⟩ := same
      obtain rfl := Option.some.inj (held.symm.trans there)
      cases standing with
      | memoryFile kind =>
        have appended : ((kernel.fileSystem.modify file ((kernel.fileSystem.files file).append bytes)).files file).content =
            some (data ++ bytes) := by
          rw [modify_same, VirtualFile.append, kind]
          rfl
        obtain rfl : bytes = [] :=
          List.append_right_eq_self.mp (Option.some.inj (appended.symm.trans content))
        simp only [modifyProcess, Function.update_self, HashMap.getOpt_set_same,
          List.length_nil, Nat.add_zero]
    · exact (getOpt_kept kernel same).trans held
  | @prints number bytes there =>
    by_cases same : caller = process ∧ number = fd
    · obtain ⟨rfl, rfl⟩ := same
      obtain rfl := Option.some.inj (held.symm.trans there)
      cases standing
    · exact (getOpt_kept kernel same).trans held
  | @opens pathname flags mode path result after resolved opens =>
    cases opens with
    | failed error => exact held
    | @opened file fs new files made =>
      by_cases same : process = caller
      · subst same
        have older := ((valid.processes process running).numbered fd handle held).ne
        simp only [modifyProcess, Function.update_self, ProcessFiles.addFileHandle]
        rw [HashMap.getOpt_set_other _ _ older, held]
      · simp only [modifyProcess, Function.update_of_ne same, held]
  | spawns constructed => simp only [modifyProcess, Function.update_of_ne running.ne, held]
  | enters found isDirectory =>
    by_cases same : process = caller
    · subst same
      simp only [modifyProcess, Function.update_self, held]
    · simp only [modifyProcess, Function.update_of_ne same, held]

private theorem Serves.next_le (serves : kernel.Serves caller call after) :
    kernel.next ≤ after.next := by
  cases serves with
  | nothing | reads | writes | prints | enters => exact Nat.le_refl _
  | opens resolved opens =>
    cases opens with
    | failed | opened => exact Nat.le_refl _
  | spawns => exact Nat.le_succ _

/-- The step lemma for the other calls. -/
theorem Stands.other {event : FileEvent} {next : KernelFiles}
    (stands : kernel.Stands process fd file data offset) (valid : kernel.Valid)
    (running : process < kernel.next) (permitted : machine.permitted kernel event)
    (executed : machine.execute kernel event = .ok next)
    (content : (next.fileSystem.files file).content = some data)
    (other : readSize process fd event.process event.call = none) :
    next.Stands process fd file data offset := by
  obtain ⟨handle, held, standing⟩ := stands
  have serves := execute_serves valid executed
  have old := standing.existing ((valid.processes process running).handles fd handle held)
  have grows := ((serves.valid valid permitted).2.files file old).kind
  exact ⟨handle, serves.held valid running held standing content other, standing.kept grows content⟩

private theorem readSize_some {count : Nat} (reads : readSize process fd caller call = some count) :
    call = .read fd count ∧ caller = process := by
  unfold readSize at reads
  split at reads
  next other size =>
    split at reads
    next same =>
      obtain rfl := Option.some.inj reads
      exact ⟨by rw [same.2], same.1⟩
    next => cases reads
  next => cases reads

/-- The step lemma for a read. -/
theorem Stands.read {event : FileEvent} {next : KernelFiles} {count : Nat}
    (stands : kernel.Stands process fd file data offset)
    (inside : offset ≤ data.length) (executed : machine.execute kernel event = .ok next)
    (reads : readSize process fd event.process event.call = some count) :
    next.Stands process fd file data (offset + ((data.drop offset).take count).length) := by
  obtain ⟨call, rfl⟩ := readSize_some reads
  obtain ⟨after, returned, moved⟩ := stands.sysRead inside event.surroundings count
  have same : machine.execute kernel event = .ok after := by
    simp only [machine, call, syscall, returned]
    rfl
  obtain rfl := Except.ok.inj (same.symm.trans executed)
  exact moved

structure Progress (process : Nat) (fd : Int) (file : FileRef) (data : List UInt8)
    (history : List (KernelFiles × FileEvent))
    (kernel : KernelFiles) (pieces : List (List UInt8)) : Prop where
  running : process < kernel.next
  answers : answers process fd history = pieces.map answer
  sequential : Sequential data (readSizes process fd history) pieces
  stands : kernel.Stands process fd file data pieces.flatten.length

theorem Progress.step {history : List (KernelFiles × FileEvent)} {event : FileEvent}
    {next : KernelFiles}
    {pieces : List (List UInt8)} (progress : Progress process fd file data history kernel pieces)
    (valid : kernel.Valid)
    (permitted : machine.permitted kernel event)
    (executed : machine.execute kernel event = .ok next)
    (content : (next.fileSystem.files file).content = some data) :
    ∃ pieces, Progress process fd file data (history ++ [(kernel, event)]) next pieces := by
  have running := progress.running.trans_le (execute_serves valid executed).next_le
  have inside := progress.sequential.length_le
  cases reads : readSize process fd event.process event.call with
  | none =>
    refine ⟨pieces, running, ?_, ?_,
      progress.stands.other valid progress.running permitted executed content reads⟩
    · rw [KernelFiles.answers, filterMap_concat, reads, Option.bind_none, Option.toList_none,
        List.append_nil]
      exact progress.answers
    · rw [readSizes, filterMap_concat, reads, Option.toList_none, List.append_nil]
      exact progress.sequential
  | some count =>
    have answered := progress.stands.readThrough inside event.surroundings count
    refine ⟨pieces ++ [(data.drop pieces.flatten.length).take count], running, ?_, ?_, ?_⟩
    · rw [KernelFiles.answers, filterMap_concat, reads, Option.bind_some, answered,
        List.map_append, ← progress.answers]
      rfl
    · rw [readSizes, filterMap_concat, reads]
      exact progress.sequential.concat count
    · rw [List.flatten_append, List.flatten_singleton, List.length_append]
      exact progress.stands.read inside executed reads

/-- However the reads are mixed with other calls, a file that keeps its bytes is returned in order
and without gaps, up to its end, which is where `sys$fstat` says it is. -/
theorem sequential_reads {memory : Memory} {flashRoot depth : Nat} {uart : UART}
    {history : List (KernelFiles × FileEvent)}
    (booted : boot memory flashRoot depth uart = .ok first)
    (reachable : machine.Reachable first start)
    (running : process < start.next) (content : (start.fileSystem.files file).content = some data)
    (fresh : (start.processes process).handles.getOpt fd =
      some (start.fileSystem.createHandleImpl file))
    (run : machine.Run start history kernel)
    (kept : ∀ entry ∈ history, (entry.1.fileSystem.files file).content = some data)
    (last : (kernel.fileSystem.files file).content = some data) :
    ∃ pieces, answers process fd history = pieces.map answer ∧
    Sequential data (readSizes process fd history) pieces ∧
      (∀ surroundings count, kernel.readThrough surroundings process fd count =
        .ok (answer ((data.drop pieces.flatten.length).take count))) ∧
      ∃ info, kernel.sysFstat process fd = .ok (⟨0, .fileInfo info⟩, kernel) ∧
      info.size = data.length ∧
        pieces.flatten ++ (data.drop pieces.flatten.length).take info.size = data := by
  have valid := reachable_valid (boot_valid booted) reachable
  have progressed : ∃ pieces, Progress process fd file data history kernel pieces := by
    induction run with
    | start => exact ⟨[], running, rfl, .nil data, _, fresh, .fresh content⟩
    | @step history state event next run permitted executed ih =>
      obtain ⟨pieces, progress⟩ :=
        ih (fun entry member => kept entry (List.mem_append_left _ member))
        (kept (state, event) (List.mem_append_right _ List.mem_cons_self))
      exact progress.step (reachable_valid valid ⟨_, run⟩) permitted executed last
  obtain ⟨pieces, progress⟩ := progressed
  have reached := reachable_valid valid ⟨_, run⟩
  have inside := progress.sequential.length_le
  obtain ⟨handle, held, standing⟩ := progress.stands
  have old : file < kernel.fileSystem.next :=
    standing.existing ((reached.processes process progress.running).handles fd handle held)
  obtain ⟨info, stated, size⟩ :=
    progress.stands.sysFstat ((reached.rooted.valid.files file old).size data last)
  refine ⟨pieces, progress.answers, progress.sequential, progress.stands.readThrough inside, info,
    stated, size, ?_⟩
  have split := List.take_append_drop pieces.flatten.length data
  rw [← progress.sequential.whole] at split
  rw [size, List.take_of_length_le (by rw [List.length_drop]; omega), split]

def greeting : List UInt8 := literal "Hello, world!\n"

/-- The shell opens the example file and reads from it. -/
theorem sequential_reads_greeting : ∃ first start kernel history,
    boot shellFlash 4096 1 (.initial 0 fun _ => 0) = .ok first ∧ machine.Reachable first start ∧
    machine.Run start history kernel ∧
    readSizes 0 3 history = [5] ∧
    ∃ pieces, answers 0 3 history = pieces.map answer ∧
    Sequential greeting (readSizes 0 3 history) pieces := by
  have played : ((boot shellFlash 4096 1 (.initial 0 fun _ => 0)).toOption.bind fun first =>
      (machine.after first [.quiet 0 (.open (literal "/example.txt") 0 0)]).bind fun start =>
        (machine.execute start (.quiet 0 (.read 3 5))).toOption.map fun kernel =>
          (decide (0 < start.next), (start.fileSystem.files 6).content,
            decide ((start.processes 0).handles.getOpt 3 = some (start.fileSystem.createHandleImpl 6)),
            (kernel.fileSystem.files 6).content)) =
      some (true, some greeting, true, some greeting) := by decide +kernel
  obtain ⟨first, booted, rest⟩ := Option.bind_eq_some_iff.mp played
  obtain ⟨start, ran, rest⟩ := Option.bind_eq_some_iff.mp rest
  obtain ⟨kernel, executed, facts⟩ := Option.map_eq_some_iff.mp rest
  obtain ⟨running, facts⟩ := Prod.mk.inj facts
  obtain ⟨content, facts⟩ := Prod.mk.inj facts
  obtain ⟨fresh, last⟩ := Prod.mk.inj facts
  have began := toOption_some.mp booted
  have reachable := Machine.reachable_after ran
  have shell : 0 < start.next := of_decide_eq_true running
  have run : machine.Run start [(start, .quiet 0 (.read 3 5))] kernel :=
    .step .start shell (toOption_some.mp executed)
  have kept : ∀ entry ∈ [(start, FileEvent.quiet 0 (.read 3 5))],
    (entry.1.fileSystem.files 6).content = some greeting := by
    intro entry member
    rw [List.mem_singleton.mp member]
    exact content
  obtain ⟨pieces, answered, sequential, -⟩ := sequential_reads began reachable shell content
    (of_decide_eq_true fresh) run kept last
  exact ⟨first, start, kernel, _, began, reachable, run, rfl, pieces, answered, sequential⟩

end KernelFiles
end PicoOs.Kernel
