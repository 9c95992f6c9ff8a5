import PicoOs.Proofs.ProcessSteps

/-! Who created whom. Every process has one spawner, which becomes its parent in the step
behind `Process::create`. -/

namespace PicoOs.Kernel
open Library PicoOs.Std

abbrev ProcessHistory := List (ProcessTable × ProcessEvent)

def Spawned (history : ProcessHistory) (child parent : ProcessRef) (directory : Path) : Prop :=
  ∃ table : ProcessTable, (table, ⟨parent, .create⟩) ∈ history ∧ table.next = child ∧
    (table.processes parent).workingDirectory = directory

namespace Spawned
variable {history : ProcessHistory} {table : ProcessTable} {event : ProcessEvent}
  {child parent : ProcessRef} {start : Path}

private theorem later (spawned : Spawned history child parent start) :
    Spawned (history ++ [(table, event)]) child parent start := by
  obtain ⟨earlier, member, facts⟩ := spawned
  exact ⟨earlier, List.mem_append_left _ member, facts⟩

theorem cases (spawned : Spawned (history ++ [(table, event)]) child parent start) :
    Spawned history child parent start ∨ event = ⟨parent, .create⟩ ∧ table.next = child ∧
      (table.processes parent).workingDirectory = start := by
  obtain ⟨earlier, member, facts⟩ := spawned
  obtain before | last := List.mem_append.mp member
  · exact Or.inl ⟨earlier, before, facts⟩
  · cases List.mem_singleton.mp last
    exact Or.inr ⟨rfl, facts⟩

end Spawned

structure Link (table : ProcessTable) (child parent : ProcessRef) : Prop where
  apart : child ≠ parent
  young : child < table.next
  born : parent < table.next
  adopted : (table.processes parent).phase = .creating child ∨
    (table.processes child).parent = some parent

structure Lineage (history : ProcessHistory) (table : ProcessTable) : Prop where
  unique : ∀ {child first second start other}, Spawned history child first start →
    Spawned history child second other →
    first = second ∧ start = other
  spawned : ∀ {child parent}, parent < table.next →
    (table.processes parent).phase = .creating child ∨
      (table.processes parent).phase = .adopting child →
      ∃ start, Spawned history child parent start
  linked : ∀ {child parent start}, Spawned history child parent start → Link table child parent
  acted : ∀ entry ∈ history, entry.2.process < table.next

namespace Lineage
variable {history : ProcessHistory} {table after : ProcessTable} {process child parent : ProcessRef}
  {step : ProcessStep}
  {start : Path}

theorem boot : Lineage [] .boot := by
  refine ⟨fun first => ?_, fun _ spawns => ?_, fun spawned => ?_, nofun⟩
  · obtain ⟨_, member, _⟩ := first
    cases member
  · obtain creates | adopts := spawns
    · cases creates
    · cases adopts
  · obtain ⟨_, member, _⟩ := spawned
    cases member

/-- Only its spawner fills in the fields of a process. -/
theorem assigns (lineage : Lineage history table) (permitted : table.permitted ⟨process, step⟩)
    (spawned : Spawned history child parent start)
    (assigns : step = .assignParent child ∨ step = .assignDirectory child) : process = parent := by
  have spawning : (table.processes process).phase = .creating child ∨
    (table.processes process).phase = .adopting child := by
    obtain rfl | rfl := assigns
    · exact Or.inl permitted.2
    · exact Or.inr permitted.2
  obtain ⟨other, also⟩ := lineage.spawned permitted.1 spawning
  exact (lineage.unique also spawned).1

private theorem link_step (lineage : Lineage history table)
    (permitted : table.permitted ⟨process, step⟩)
    (spawned : Spawned history child parent start) (steps : table.Steps process step after) :
    Link after child parent := by
  have link := lineage.linked spawned
  refine ⟨link.apart, link.young.trans_le steps.next_le, link.born.trans_le steps.next_le, ?_⟩
  rw [steps.parent_old link.young]
  by_cases assigns : step = .assignParent child
  · rw [if_pos assigns, lineage.assigns permitted spawned (Or.inl assigns)]
    exact Or.inr rfl
  · rw [if_neg assigns]
    refine link.adopted.imp_left fun creates => ?_
    by_cases acts : parent = process
    · subst acts
      have reached := permitted.2.symm.trans creates
      cases steps <;> cases reached
      exact absurd rfl assigns
    · rw [steps.phase_other link.born acts, creates]

private theorem spawned_step (lineage : Lineage history table)
    (permitted : table.permitted ⟨process, step⟩)
    (steps : table.Steps process step after) (born : parent < after.next)
    (spawning : (after.processes parent).phase = .creating child ∨
      (after.processes parent).phase = .adopting child) :
    ∃ start, Spawned (history ++ [(table, ⟨process, step⟩)]) child parent start := by
  have old (older : parent < table.next)
      (spawning : (table.processes parent).phase = .creating child ∨
        (table.processes parent).phase = .adopting child) :
      ∃ start, Spawned (history ++ [(table, ⟨process, step⟩)]) child parent start := by
    obtain ⟨start, spawned⟩ := lineage.spawned older spawning
    exact ⟨start, spawned.later⟩
  by_cases acts : parent = process
  · subst acts
    obtain same | ⟨other, lands, rfl, rfl⟩ | ⟨other, lands, rfl⟩ | elsewhere :=
      steps.spawning permitted.1
    · exact old permitted.1 (same ▸ spawning)
    · rw [lands] at spawning
      obtain same | same := spawning
      · cases same
        exact ⟨_, table, by simp, rfl, rfl⟩
      · cases same
    · rw [lands] at spawning
      obtain same | same := spawning
      · cases same
      · cases same
        exact old permitted.1 (Or.inl permitted.2)
    · exact absurd spawning (not_or.mpr (elsewhere child))
  · obtain older | ⟨-, rfl, new⟩ := steps.born_cases born
    · rw [steps.phase_other older acts] at spawning
      exact old older spawning
    · rw [new] at spawning
      obtain same | same := spawning <;> cases same

private theorem link_new (born : process < table.next) :
    Link (table.create process) table.next process := by
  refine ⟨Nat.ne_of_gt born, Nat.lt_succ_self _, Nat.lt_succ_of_lt born, Or.inl ?_⟩
  rw [ProcessTable.create_old born, ProcessTable.setPhase_self]

theorem extend (lineage : Lineage history table) (permitted : table.permitted ⟨process, step⟩)
    (executed : table.step process step = .ok after) :
    Lineage (history ++ [(table, ⟨process, step⟩)]) after := by
  have steps := ProcessTable.steps executed
  have fresh {child parent : ProcessRef} {start : Path}
    (spawned : Spawned history child parent start) : child ≠ table.next :=
    Nat.ne_of_lt (lineage.linked spawned).young
  refine ⟨fun first second => ?_,
    fun born spawning => lineage.spawned_step permitted steps born spawning,
    fun spawned => ?_, fun entry member => ?_⟩
  · obtain before | ⟨creates, new, same⟩ := first.cases
    · obtain also | ⟨-, new, -⟩ := second.cases
      · exact lineage.unique before also
      · exact absurd new.symm (fresh before)
    · obtain also | ⟨also, -, again⟩ := second.cases
      · exact absurd new.symm (fresh also)
      · cases creates
        cases also
        exact ⟨rfl, same.symm.trans again⟩
  · obtain before | ⟨creates, rfl, rfl⟩ := spawned.cases
    · exact lineage.link_step permitted before steps
    · cases creates
      cases steps
      exact link_new permitted.1
  · obtain before | last := List.mem_append.mp member
    · exact (lineage.acted entry before).trans_le steps.next_le
    · cases List.mem_singleton.mp last
      exact permitted.1.trans_le steps.next_le

end Lineage

theorem lineage_of_run {history : ProcessHistory} {table : ProcessTable}
    (run : ProcessTable.machine.Run .boot history table) : Lineage history table :=
  run.induct Lineage .boot fun _ earlier permitted executed => earlier.extend permitted executed

end PicoOs.Kernel
