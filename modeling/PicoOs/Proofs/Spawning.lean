import PicoOs.Proofs.Lineage
import PicoOs.Proofs.Lifetimes

/-! What a new process sees of its parent. `Process::create` returns when the thread of the
child is queued already, and the worker fills in the rest afterwards. -/

namespace PicoOs.Kernel
open Library PicoOs.Std

def ProcessEvent.chdirs (event : ProcessEvent) (process : ProcessRef) : Option Path :=
  match event.step with
  | .chdir path => if event.process = process then some path else none
  | _ => none

def chdirs (history : ProcessHistory) (process : ProcessRef) : List Path :=
  history.filterMap fun entry => entry.2.chdirs process

def directory (history : ProcessHistory) (process : ProcessRef) (start : Path) : Path :=
  (chdirs history process).getLast?.getD start

/-- The process does not run while its spawner has still to assign something that it would see. -/
def ProcessTable.settled (table : ProcessTable) (event : ProcessEvent) : Prop :=
  ∀ spawner < table.next, (table.processes spawner).phase ≠ .creating event.process ∧
    ((table.processes spawner).phase = .adopting event.process →
      (table.processes spawner).workingDirectory = .root ∧ event.chdirs event.process = none)

instance (table : ProcessTable) (event : ProcessEvent) : Decidable (table.settled event) := by
  unfold ProcessTable.settled; infer_instance

theorem chdirs_concat {history : ProcessHistory} {table : ProcessTable} {event : ProcessEvent}
    {process : ProcessRef} :
    chdirs (history ++ [(table, event)]) process = chdirs history process ++
      (event.chdirs process).toList := filterMap_concat ..

theorem chdirs_quiet {history : ProcessHistory} {table : ProcessTable} {event : ProcessEvent}
    {process : ProcessRef}
    (quiet : event.chdirs process = none) :
    chdirs (history ++ [(table, event)]) process = chdirs history process := by
  rw [chdirs_concat, quiet, Option.toList_none, List.append_nil]

theorem ProcessEvent.chdirs_other {event : ProcessEvent} {process : ProcessRef}
    (differs : event.process ≠ process) :
    event.chdirs process = none := by
  unfold ProcessEvent.chdirs
  split
  next => exact if_neg differs
  next => rfl

theorem ProcessEvent.chdirs_none {event : ProcessEvent} {process : ProcessRef}
    (stays : ∀ path, event.step ≠ .chdir path) :
    event.chdirs process = none := by
  unfold ProcessEvent.chdirs
  split
  next path same => exact absurd same (stays path)
  next => rfl

structure Inherits (history : ProcessHistory) (table : ProcessTable) (child parent : ProcessRef)
    (start : Path) : Prop where
  early : (table.processes parent).phase = .creating child ∨
    (table.processes parent).phase = .adopting child →
    (table.processes child).workingDirectory = .root ∧ chdirs history child = [] ∧
      (table.processes parent).workingDirectory = start ∧
        ((table.processes child).phase = .running ∨ start = .root)
  late : (table.processes parent).phase ≠ .creating child →
    (table.processes parent).phase ≠ .adopting child →
    (table.processes child).workingDirectory = directory history child start

structure Family (history : ProcessHistory) (table : ProcessTable) : Prop where
  lineage : Lineage history table
  inherits : ∀ {child parent start}, Spawned history child parent start →
    Inherits history table child parent start

namespace Family
variable {history : ProcessHistory} {table after : ProcessTable} {process child parent : ProcessRef}
  {step : ProcessStep}
  {start : Path}

private theorem boot : Family [] .boot := by
  refine ⟨.boot, fun spawned => ?_⟩
  obtain ⟨_, member, _⟩ := spawned
  cases member

/-- The directory of a spawner stays while it fills in the fields of its child. -/
theorem start_kept (family : Family history table) (permitted : table.permitted ⟨process, step⟩)
    (spawned : Spawned history child parent start) (steps : table.Steps process step after)
    (others : process ≠ parent)
    (busy : (table.processes parent).phase ≠ .running) :
    (after.processes parent).workingDirectory = (table.processes parent).workingDirectory := by
  have born := (family.lineage.linked spawned).born
  by_cases places : step = .assignDirectory parent
  · subst places
    obtain ⟨start, adopted⟩ := family.lineage.spawned permitted.1 (Or.inr permitted.2)
    obtain ⟨root, -, same, running | plain⟩ := (family.inherits adopted).early (Or.inr permitted.2)
    · exact absurd running busy
    · cases steps
      rw [ProcessTable.assignDirectory, ProcessTable.setPhase_directory, ProcessTable.modify_self,
        root, same, plain]
  · exact steps.directory_old born places fun _ _ => others.symm

private theorem inherits_beside (family : Family history table)
    (permitted : table.permitted ⟨process, step⟩)
    (settled : table.settled ⟨process, step⟩) (spawned : Spawned history child parent start)
    (steps : table.Steps process step after) (others : process ≠ parent) :
    Inherits (history ++ [(table, ⟨process, step⟩)]) after child parent start := by
  have ⟨_, young, born, _⟩ := family.lineage.linked spawned
  have before := family.inherits spawned
  have phase : (after.processes parent).phase = (table.processes parent).phase :=
    steps.phase_other born others.symm
  have untouched : step ≠ .assignDirectory child := fun same =>
    others (family.lineage.assigns permitted spawned (Or.inr same))
  have unmoving (calm : process = child → ∀ path, step ≠ .chdir path) :
      (after.processes child).workingDirectory = (table.processes child).workingDirectory ∧
        chdirs (history ++ [(table, ⟨process, step⟩)]) child = chdirs history child := by
    by_cases own : process = child
    · have stays := calm own
      refine ⟨steps.directory_old young untouched fun path same => absurd same (stays path), ?_⟩
      exact chdirs_quiet (ProcessEvent.chdirs_none stays)
    · exact ⟨steps.directory_old young untouched fun _ _ => Ne.symm own,
        chdirs_quiet (ProcessEvent.chdirs_other own)⟩
  refine ⟨fun early => ?_, fun first second => ?_⟩
  · rw [phase] at early
    have busy : (table.processes parent).phase ≠ .running := by
      obtain creates | adopts := early
      · rw [creates]
        nofun
      · rw [adopts]
        nofun
    obtain ⟨root, none, same, calm⟩ := before.early early
    have own (acts : process = child) : (table.processes parent).workingDirectory = .root ∧
      ∀ path, step ≠ .chdir path := by
      subst acts
      obtain ⟨created, adopts⟩ := settled parent born
      obtain ⟨plain, quiet⟩ := adopts (early.resolve_left created)
      refine ⟨plain, ?_⟩
      rintro path rfl
      simp [ProcessEvent.chdirs] at quiet
    obtain ⟨stays, unmoved⟩ := unmoving fun acts => (own acts).2
    refine ⟨stays.trans root, unmoved.trans none,
      (family.start_kept permitted spawned steps others busy).trans same, ?_⟩
    by_cases acts : process = child
    · exact Or.inr (same.symm.trans (own acts).1)
    · exact calm.imp_left (steps.phase_other young (Ne.symm acts)).trans
  · rw [phase] at first second
    have settled := before.late first second
    by_cases moves : ∃ path, process = child ∧ step = .chdir path
    · obtain ⟨path, rfl, rfl⟩ := moves
      cases steps
      rw [ProcessTable.modify_self, directory, chdirs_concat]
      simp [ProcessEvent.chdirs]
    · obtain ⟨stays, unmoved⟩ := unmoving fun acts path same => moves ⟨path, acts, same⟩
      rw [stays, settled, directory, directory, unmoved]

private theorem inherits_own (family : Family history table)
    (permitted : table.permitted ⟨parent, step⟩)
    (spawned : Spawned history child parent start) (steps : table.Steps parent step after) :
    Inherits (history ++ [(table, ⟨parent, step⟩)]) after child parent start := by
  obtain ⟨apart, young, born, _⟩ := family.lineage.linked spawned
  have before := family.inherits spawned
  have quiet : (ProcessEvent.mk parent step).chdirs child = none :=
    ProcessEvent.chdirs_other apart.symm
  have unmoved : chdirs (history ++ [(table, ⟨parent, step⟩)]) child = chdirs history child :=
    chdirs_quiet quiet
  by_cases creates : (table.processes parent).phase = .creating child
  · obtain ⟨root, none, same, calm⟩ := before.early (Or.inl creates)
    have reached := permitted.2.symm.trans creates
    cases steps <;> cases reached
    refine ⟨fun _ => ⟨?_, unmoved.trans none, ?_, calm.imp_left ?_⟩,
      fun _ away => absurd ProcessTable.setPhase_self away⟩
    · rw [ProcessTable.assignParent, ProcessTable.setPhase_directory,
        ProcessTable.modify_self, root]
    · rw [ProcessTable.assignParent, ProcessTable.setPhase_directory,
        ProcessTable.modify_other _ apart.symm, same]
    · rw [ProcessTable.assignParent, ProcessTable.setPhase_other apart, ProcessTable.modify_self]
      exact id
  · by_cases adopts : (table.processes parent).phase = .adopting child
    · obtain ⟨root, none, same, calm⟩ := before.early (Or.inr adopts)
      have reached := permitted.2.symm.trans adopts
      cases steps <;> cases reached
      have phase : ((table.assignDirectory parent child).processes parent).phase = .placing child :=
        ProcessTable.setPhase_self
      refine ⟨fun early => ?_, fun _ _ => ?_⟩
      · rw [phase] at early
        obtain early | early := early <;> cases early
      · rw [ProcessTable.assignDirectory, ProcessTable.setPhase_directory, ProcessTable.modify_self,
          directory, unmoved,
          none]
        exact same
    · have away : (after.processes parent).phase ≠ .creating child ∧
        (after.processes parent).phase ≠ .adopting child := by
        obtain same | ⟨other, lands, -, rfl⟩ | ⟨other, lands, rfl⟩ | elsewhere :=
          steps.spawning born
        · exact same ▸ ⟨creates, adopts⟩
        · refine lands ▸ ⟨fun same => ?_, by rintro ⟨⟩⟩
          exact Nat.lt_irrefl _ ((ProcessPhase.creating.inj same) ▸ young)
        · refine lands ▸ ⟨by rintro ⟨⟩, fun same => creates ?_⟩
          rw [← ProcessPhase.adopting.inj same]
          exact permitted.2
        · exact elsewhere child
      have untouched : step ≠ .assignDirectory child := by
        rintro rfl
        exact adopts permitted.2
      refine ⟨fun early => absurd early (not_or.mpr away), fun _ _ => ?_⟩
      rw [steps.directory_old young untouched fun _ _ => apart, before.late creates adopts,
        directory, directory, unmoved]

private theorem inherits_new (lineage : Lineage history table) (born : process < table.next) :
    Inherits (history ++ [(table, ⟨process, .create⟩)]) (table.create process) table.next process
      (table.processes process).workingDirectory := by
  have phase : ((table.create process).processes process).phase = .creating table.next := by
    rw [ProcessTable.create_old born, ProcessTable.setPhase_self]
  have silent : chdirs history table.next = [] := by
    refine List.filterMap_eq_nil_iff.mpr fun entry member => ProcessEvent.chdirs_other ?_
    exact Nat.ne_of_lt (lineage.acted entry member)
  have quiet : (ProcessEvent.mk process .create).chdirs table.next = none :=
    ProcessEvent.chdirs_none fun _ => nofun
  refine ⟨fun _ => ⟨?_, ?_, ?_, Or.inl ?_⟩, fun away _ => absurd phase away⟩
  · rw [ProcessTable.create_new]
    rfl
  · rw [chdirs_quiet quiet, silent]
  · rw [ProcessTable.create_old born, ProcessTable.setPhase_directory]
  · rw [ProcessTable.create_new]
    rfl

private theorem extend (family : Family history table) (permitted : table.permitted ⟨process, step⟩)
    (settled : table.settled ⟨process, step⟩) (executed : table.step process step = .ok after) :
    Family (history ++ [(table, ⟨process, step⟩)]) after := by
  have steps := ProcessTable.steps executed
  refine ⟨family.lineage.extend permitted executed, fun {child parent start} spawned => ?_⟩
  obtain before | ⟨creates, rfl, rfl⟩ := spawned.cases
  · by_cases acts : process = parent
    · subst acts
      exact family.inherits_own permitted before steps
    · exact family.inherits_beside permitted settled before steps acts
  · cases creates
    cases steps
    exact inherits_new family.lineage permitted.1

end Family

private theorem family_of_run {history : ProcessHistory} {table : ProcessTable}
    (run : ProcessTable.machine.Run .boot history table)
    (meets : ∀ entry ∈ history, entry.1.settled entry.2) :
    Family history table := by
  induction run with
  | start => exact Family.boot
  | @step history table event after run permitted executed ih =>
    have earlier := ih fun entry member => meets entry (List.mem_append_left _ member)
    exact earlier.extend permitted (meets (table, event) (by simp)) executed

namespace Family
variable {history : ProcessHistory} {table : ProcessTable} {event : ProcessEvent}
  {parent : ProcessRef} {start : Path}

theorem observes (family : Family history table) (settled : table.settled event)
    (spawned : Spawned history event.process parent start) :
    (table.processes event.process).parent = some parent ∧
      (table.processes event.process).workingDirectory = directory history event.process start := by
  have link := family.lineage.linked spawned
  have before := family.inherits spawned
  obtain ⟨created, adopts⟩ := settled parent link.born
  refine ⟨link.adopted.resolve_left created, ?_⟩
  by_cases adopting : (table.processes parent).phase = .adopting event.process
  · obtain ⟨root, none, same, -⟩ := before.early (Or.inr adopting)
    rw [root, directory, none, ← same, (adopts adopting).1]
    rfl
  · exact before.late created adopting

private theorem delivers (family : Family history table) (settled : table.settled event)
    (spawned : Spawned history event.process parent start) {status : Int32}
    (exits : event.step = .deliver status)
    {list : List TerminatedProcess}
    (represents : (table.processes parent).terminatedChildren.Represents list)
    (room : list.length < 8) : ∃ after, table.step event.process event.step = .ok after ∧
      (after.processes parent).terminatedChildren.Represents
        (list ++ [⟨(table.processes event.process).processId, status⟩]) := by
  have enqueued := represents.enqueue ⟨(table.processes event.process).processId, status⟩
  rw [if_pos room] at enqueued
  obtain ⟨queue, enqueued, longer⟩ := enqueued
  have adopted := (family.observes settled spawned).1
  rw [exits]
  simp only [ProcessTable.step, ProcessTable.deliver, adopted, enqueued]
  refine ⟨_, rfl, ?_⟩
  rw [ProcessTable.setPhase_queue, ProcessTable.modify_self]
  exact longer

end Family

/-- As long as no process runs while its spawner still fills in what it would see, each step of a
spawned process sees its parent and its directory, its exit reaches the parent, and the thread of a
process is never destroyed. -/
theorem spawn_observed {history : ProcessHistory} {table : ProcessTable} {event : ProcessEvent}
    {parent : ProcessRef}
    {start : Path} (run : ProcessTable.machine.Run .boot history table)
    (meets : ∀ entry ∈ history, entry.1.settled entry.2) (settled : table.settled event)
    (spawned : Spawned history event.process parent start) :
    ((table.processes event.process).parent = some parent ∧
      (table.processes event.process).workingDirectory = directory history event.process start) ∧
    (∀ status list, event.step = .deliver status →
      (table.processes parent).terminatedChildren.Represents list →
      list.length < 8 → ∃ after, table.step event.process event.step = .ok after ∧
        (after.processes parent).terminatedChildren.Represents
          (list ++ [⟨(table.processes event.process).processId, status⟩])) ∧
    ∀ stack context state thread history, State.machine.Run (.boot stack context) history state →
      ∀ entry ∈ history, (entry.1.threads thread).point.inProcess = true →
        (state.threads thread).point.inProcess = true := by
  have family := family_of_run run meets
  exact ⟨family.observes settled spawned,
    fun status list exits represents room => family.delivers settled spawned exits represents room,
    fun stack context state thread history run => process_lives run⟩

def ProcessEvent.adoption : List ProcessEvent :=
  [⟨0, .assignParent 1⟩, ⟨0, .assignDirectory 1⟩, ⟨0, .finishSpawn 1⟩]

theorem spawn_observed_first : ∃ history table, ProcessTable.machine.Run .boot history table ∧
    Spawned history 1 0 .root ∧ (table.processes 1).phase = .exiting 7 ∧
    (table.processes 1).parent = some 0 := by
  have played : ((ProcessTable.machine.restrict ProcessTable.settled).after (.create .boot 0)
      (ProcessEvent.adoption ++ [⟨1, .exit 7⟩])).map (fun table =>
        (decide (table.settled ⟨1, .deliver 7⟩), (table.processes 1).phase)) = some (true,
          .exiting 7) := by
    decide +kernel
  obtain ⟨table, played, outcome⟩ := Option.map_eq_some_iff.mp played
  obtain ⟨settled, phase⟩ := Prod.mk.inj outcome
  have settled : table.settled ⟨1, .deliver 7⟩ := of_decide_eq_true settled
  have created : (ProcessTable.machine.restrict ProcessTable.settled).Run .boot
    [(.boot, ⟨0, .create⟩)] (.create .boot 0) :=
    Machine.Run.start.step (by decide +kernel) rfl
  obtain ⟨more, extended⟩ := created.extend played
  obtain ⟨run, meets⟩ := extended.unrestrict
  have spawned : Spawned ([(.boot, ⟨0, .create⟩)] ++ more) 1 0 .root := ⟨.boot, by simp, rfl, rfl⟩
  have observed := spawn_observed run meets settled spawned
  exact ⟨_, table, run, spawned, phase, observed.1.1⟩

def ProcessTable.inBin : ProcessTable :=
  .modify .boot 0 fun value => { value with workingDirectory := ⟨true, [[98, 105, 110]]⟩ }

/-- Process 1 runs as soon as it is queued: it sees neither its parent nor its directory, and its
exit is lost. -/
theorem spawn_unsettled : ∃ history before table, ProcessTable.machine.Run .boot history table ∧
    Spawned history 1 0 ⟨true, [[98, 105, 110]]⟩ ∧ (before, ⟨1, .deliver 7⟩) ∈ history ∧
      (before.processes 1).parent = none ∧ (before.processes 1).workingDirectory = .root ∧
        (table.processes 1).phase = .exited ∧ (table.processes 0).phase = .running ∧
          (table.processes 0).terminatedChildren.size = 0 := by
  have played : (ProcessTable.machine.after (.create .inBin 0) [⟨1, .exit 7⟩]).map (fun before =>
      (((before.processes 1).parent, (before.processes 1).workingDirectory),
        (ProcessTable.machine.after before (⟨1, .deliver 7⟩ :: ProcessEvent.adoption)).map fun table =>
          ((table.processes 1).phase, (table.processes 0).phase,
            (table.processes 0).terminatedChildren.size))) =
      some ((none, .root), some (.exited, .running, 0)) := by decide +kernel
  obtain ⟨before, exits, outcome⟩ := Option.map_eq_some_iff.mp played
  obtain ⟨seen, rest⟩ := Prod.mk.inj outcome
  obtain ⟨parent, place⟩ := Prod.mk.inj seen
  obtain ⟨table, delivers, outcome⟩ := Option.map_eq_some_iff.mp rest
  obtain ⟨ended, outcome⟩ := Prod.mk.inj outcome
  obtain ⟨idle, nothing⟩ := Prod.mk.inj outcome
  have moved : ProcessTable.machine.Run .boot [(.boot,
    ⟨0, .chdir ⟨true, [[98, 105, 110]]⟩⟩)] .inBin :=
    Machine.Run.start.step (by decide +kernel) rfl
  have created : ProcessTable.machine.Run .boot
      ([(.boot, ⟨0, .chdir ⟨true, [[98, 105, 110]]⟩⟩)] ++ [(.inBin, ⟨0, .create⟩)])
        (.create .inBin 0) :=
    moved.step (by decide +kernel) rfl
  obtain ⟨more, run⟩ := created.extend exits
  obtain ⟨next, permitted, executed, delivers⟩ := Machine.after_cons delivers
  obtain ⟨rest, extended⟩ := (run.step permitted executed).extend delivers
  refine ⟨_, before, table, extended,
    ⟨.inBin, by simp, rfl, rfl⟩, by simp, parent, place, ended, idle, nothing⟩

end PicoOs.Kernel
