import PicoOs.Kernel.Process
import PicoOs.Proofs.CircularQueues

/-! What a step of a process does to the fields of all processes, and that every process
has one spawner. -/

namespace PicoOs.Kernel
open Library PicoOs.Std

namespace ProcessTable
variable {table after : ProcessTable} {process other : ProcessRef} {step : ProcessStep}

theorem modify_self (change : Process → Process) : (table.modify process change).processes process =
    change (table.processes process) := Function.update_self ..

theorem modify_other (change : Process → Process) (differs : other ≠ process) :
    (table.modify process change).processes other = table.processes other :=
  Function.update_of_ne differs ..

theorem modify_field {α : Sort u} (field : Process → α) {change : Process → Process}
    (same : ∀ value, field (change value) = field value) :
    field ((table.modify process change).processes other) = field (table.processes other) := by
  by_cases target : other = process
  · rw [target, modify_self, same]
  · rw [modify_other change target]

section Phase
variable {phase : ProcessPhase}

@[simp] theorem setPhase_parent : ((table.setPhase process phase).processes other).parent =
    (table.processes other).parent := modify_field Process.parent fun _ => rfl

@[simp] theorem setPhase_directory :
    ((table.setPhase process phase).processes other).workingDirectory =
    (table.processes other).workingDirectory := modify_field Process.workingDirectory fun _ => rfl

@[simp] theorem setPhase_queue :
    ((table.setPhase process phase).processes other).terminatedChildren =
    (table.processes other).terminatedChildren :=
  modify_field Process.terminatedChildren fun _ => rfl

@[simp] theorem setPhase_self : ((table.setPhase process phase).processes process).phase = phase :=
  congrArg Process.phase (modify_self _)

@[simp] theorem setPhase_other (differs : other ≠ process) :
    ((table.setPhase process phase).processes other).phase = (table.processes other).phase :=
  congrArg Process.phase (modify_other _ differs)

end Phase

theorem create_old (born : other < table.next) : (table.create process).processes other =
    (table.setPhase process (.creating table.next)).processes other :=
  Function.update_of_ne (Nat.ne_of_lt born) ..

theorem create_new : (table.create process).processes table.next = .construct table.nextProcessId :=
  Function.update_self ..

inductive Steps (table : ProcessTable) (process : ProcessRef) :
    ProcessStep → ProcessTable → Prop where
  | work : Steps table process .work table
  | chdir (path : Path) :
      Steps table process (.chdir path) (table.modify process fun value => { value with workingDirectory := path })
  | create : Steps table process .create (table.create process)
  | assignParent (child : ProcessRef) : Steps table process (.assignParent child)
      (table.assignParent process child)
  | assignDirectory (child : ProcessRef) :
      Steps table process (.assignDirectory child) (table.assignDirectory process child)
  | finishSpawn (child : ProcessRef) : Steps table process (.finishSpawn child)
      (table.setPhase process .running)
  | wait : Steps table process .wait (table.setPhase process .waiting)
  | found (size : (table.processes process).terminatedChildren.size > 0) :
      Steps table process .poll (table.setPhase process .collecting)
  | nothing (size : (table.processes process).terminatedChildren.size = 0) :
      Steps table process .poll table
  | collect (terminated : TerminatedProcess) (queue : CircularQueue TerminatedProcess 8)
      (dequeued : (table.processes process).terminatedChildren.dequeue = .ok (terminated, queue)) :
      Steps table process .collect
        (table.modify process fun value => { value with terminatedChildren := queue, phase := .running })
  | exit (status : Int32) : Steps table process (.exit status)
      (table.setPhase process (.exiting status))
  | orphan (status : Int32) (parent : (table.processes process).parent = none) :
      Steps table process (.deliver status) (table.setPhase process .exited)
  | deliver (status : Int32) (parent : ProcessRef) (queue : CircularQueue TerminatedProcess 8)
      (child : (table.processes process).parent = some parent)
      (enqueued : (table.processes parent).terminatedChildren.enqueue ⟨(table.processes process).processId, status⟩ =
        .ok queue) :
      Steps table process (.deliver status)
        ((table.modify parent fun value => { value with terminatedChildren := queue }).setPhase process .delivered)
  | checkDelivered : Steps table process .checkDelivered (table.setPhase process .exited)

theorem steps (executed : table.step process step = .ok after) :
    Steps table process step after := by
  cases step with
  | collect =>
    simp only [ProcessTable.step, ProcessTable.collect] at executed
    split at executed
    next => cases executed
    next terminated queue dequeued =>
      cases executed
      exact .collect terminated queue dequeued
  | deliver status =>
    simp only [ProcessTable.step, ProcessTable.deliver] at executed
    split at executed
    next parent =>
      cases executed
      exact .orphan status parent
    next parent child =>
      split at executed
      next => cases executed
      next queue enqueued =>
        cases executed
        exact .deliver status parent queue child enqueued
  | checkDelivered =>
    simp only [ProcessTable.step, ProcessTable.checkDelivered] at executed
    split at executed
    next =>
      cases executed
      exact .checkDelivered
    next =>
      split at executed
      next =>
        cases executed
        exact .checkDelivered
      next => cases executed
  | poll =>
    simp only [ProcessTable.step, poll] at executed
    split at executed
    next size =>
      cases executed
      exact .found size
    next size =>
      cases executed
      exact .nothing (Nat.eq_zero_of_not_pos size)
  | work =>
    cases executed
    exact .work
  | chdir path =>
    cases executed
    exact .chdir path
  | create =>
    cases executed
    exact .create
  | assignParent child =>
    cases executed
    exact .assignParent child
  | assignDirectory child =>
    cases executed
    exact .assignDirectory child
  | finishSpawn child =>
    cases executed
    exact .finishSpawn child
  | wait =>
    cases executed
    exact .wait
  | exit status =>
    cases executed
    exact .exit status

namespace Steps

theorem next (steps : Steps table process step after) :
    after.next = if step = .create then table.next + 1 else table.next := by
  cases steps <;> rfl

theorem next_le (steps : Steps table process step after) : table.next ≤ after.next := by
  rw [steps.next]
  split
  next => exact Nat.le_succ _
  next => exact Nat.le_refl _

/-- A process of the next table is an old one, or has just been created. -/
theorem born_cases (steps : Steps table process step after) (born : other < after.next) :
    other < table.next ∨
    step = .create ∧ other = table.next ∧
    after.processes other = .construct table.nextProcessId := by
  by_cases old : other < table.next
  · exact Or.inl old
  · rw [steps.next] at born
    split at born
    next creates =>
      subst creates
      obtain rfl := Nat.le_antisymm (Nat.le_of_lt_succ born) (Nat.le_of_not_lt old)
      cases steps
      exact Or.inr ⟨rfl, rfl, create_new⟩
    next => exact absurd born old

/-- Only the process that takes a step changes its phase. -/
theorem phase_other (steps : Steps table process step after) (born : other < table.next)
    (differs : other ≠ process) :
    (after.processes other).phase = (table.processes other).phase := by
  cases steps with
  | work | nothing => rfl
  | create => rw [create_old born, setPhase_other differs]
  | assignParent child | assignDirectory child =>
    simp only [ProcessTable.assignParent, ProcessTable.assignDirectory, setPhase_other differs]
    exact modify_field Process.phase fun _ => rfl
  | deliver status parent queue =>
    rw [setPhase_other differs]
    exact modify_field Process.phase fun _ => rfl
  | chdir | collect => exact congrArg Process.phase (modify_other _ differs)
  | finishSpawn | wait | found | exit | orphan | checkDelivered => exact setPhase_other differs

/-- How a process comes to have the fields of a child to fill in. -/
theorem spawning (steps : Steps table process step after) (born : process < table.next) :
    (after.processes process).phase = (table.processes process).phase ∨
      (∃ child, (after.processes process).phase = .creating child ∧ step = .create ∧
        child = table.next) ∨
      (∃ child, (after.processes process).phase = .adopting child ∧ step = .assignParent child) ∨
      ∀ child, (after.processes process).phase ≠ .creating child ∧
      (after.processes process).phase ≠ .adopting child := by
  have other {phase : ProcessPhase} (lands : (after.processes process).phase = phase)
      (elsewhere : ∀ child, phase ≠ .creating child ∧ phase ≠ .adopting child) :
      ∀ child, (after.processes process).phase ≠ .creating child ∧
        (after.processes process).phase ≠ .adopting child :=
    lands ▸ elsewhere
  cases steps with
  | work | nothing => exact Or.inl rfl
  | chdir path => exact Or.inl (modify_field Process.phase fun _ => rfl)
  | create =>
    refine Or.inr (Or.inl ⟨table.next, ?_, rfl, rfl⟩)
    rw [create_old born, setPhase_self]
  | assignParent child => exact Or.inr (Or.inr (Or.inl ⟨child, setPhase_self, rfl⟩))
  | collect =>
      exact Or.inr (Or.inr (Or.inr (other (congrArg Process.phase (modify_self _)) fun _ => ⟨nofun, nofun⟩)))
  | assignDirectory | finishSpawn | wait | found | exit | orphan | deliver | checkDelivered =>
    exact Or.inr (Or.inr (Or.inr (other setPhase_self fun _ => ⟨nofun, nofun⟩)))

theorem parent_old (steps : Steps table process step after) (born : other < table.next) :
    (after.processes other).parent = if step = .assignParent other then some process else (table.processes other).parent := by
  cases steps with
  | work | nothing => rfl
  | create => rw [create_old born, setPhase_parent, if_neg nofun]
  | assignParent child =>
    rw [ProcessTable.assignParent, setPhase_parent]
    by_cases target : other = child
    · rw [target, modify_self, if_pos rfl]
    · rw [modify_other _ target, if_neg fun same => target (ProcessStep.assignParent.inj same).symm]
  | assignDirectory child =>
    rw [ProcessTable.assignDirectory, setPhase_parent, if_neg nofun]
    exact modify_field Process.parent fun _ => rfl
  | deliver status parent queue =>
    rw [setPhase_parent, if_neg nofun]
    exact modify_field Process.parent fun _ => rfl
  | chdir | collect =>
    rw [if_neg nofun]
    exact modify_field Process.parent fun _ => rfl
  | finishSpawn | wait | found | exit | orphan
  | checkDelivered => rw [setPhase_parent, if_neg nofun]

theorem directory_old (steps : Steps table process step after) (born : other < table.next)
    (untouched : step ≠ .assignDirectory other)
    (stays : ∀ path, step = .chdir path → other ≠ process) :
    (after.processes other).workingDirectory = (table.processes other).workingDirectory := by
  cases steps with
  | work | nothing => rfl
  | create => rw [create_old born, setPhase_directory]
  | chdir path => exact congrArg Process.workingDirectory (modify_other _ (stays path rfl))
  | assignParent child =>
    rw [ProcessTable.assignParent, setPhase_directory]
    exact modify_field Process.workingDirectory fun _ => rfl
  | assignDirectory child =>
    rw [ProcessTable.assignDirectory, setPhase_directory, modify_other _ fun same =>
      untouched (congrArg ProcessStep.assignDirectory same.symm)]
  | deliver status parent queue =>
    rw [setPhase_directory]
    exact modify_field Process.workingDirectory fun _ => rfl
  | collect => exact modify_field Process.workingDirectory fun _ => rfl
  | finishSpawn | wait | found | exit | orphan | checkDelivered => exact setPhase_directory

/-- The queue of a process only changes when it collects a status or one of its children delivers
one. -/
theorem queue_old (steps : Steps table process step after) (born : other < table.next)
    (collects : step = .collect → other ≠ process)
    (delivers : ∀ status, step = .deliver status → (table.processes process).parent ≠ some other) :
    (after.processes other).terminatedChildren = (table.processes other).terminatedChildren := by
  cases steps with
  | work | nothing => rfl
  | create => rw [create_old born, setPhase_queue]
  | assignParent child | assignDirectory child =>
    simp only [ProcessTable.assignParent, ProcessTable.assignDirectory, setPhase_queue]
    exact modify_field Process.terminatedChildren fun _ => rfl
  | deliver status parent queue child =>
    rw [setPhase_queue, modify_other _ fun same =>
      delivers status rfl (child.trans (congrArg some same.symm))]
  | chdir => exact modify_field Process.terminatedChildren fun _ => rfl
  | collect => exact congrArg Process.terminatedChildren (modify_other _ (collects rfl))
  | finishSpawn | wait | found | exit | orphan | checkDelivered => exact setPhase_queue

end Steps
end ProcessTable
end PicoOs.Kernel
