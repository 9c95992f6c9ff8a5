import PicoOs.Proofs.Lineage

/-! How the exit status of a child gets to its parent. What children delivered is what the
parent has collected, followed by what is still in its queue; the queue has eight slots,
and nobody checks that they are enough. -/

namespace PicoOs.Kernel
open Library PicoOs.Std

def exited (parent : ProcessRef) (entry : ProcessTable × ProcessEvent) : Option TerminatedProcess :=
  match entry.2.step with
  | .deliver status =>
    if (entry.1.processes entry.2.process).parent = some parent then
      some ⟨(entry.1.processes entry.2.process).processId, status⟩
    else none
  | _ => none

def waited (parent : ProcessRef) (entry : ProcessTable × ProcessEvent) : Option TerminatedProcess :=
  match entry.2.step with
  | .collect =>
      if entry.2.process = parent then (entry.1.collect parent).toOption.map Prod.fst else none
  | _ => none

def leaves (entry : ProcessTable × ProcessEvent) : Option ProcessRef :=
  match entry.2.step with
  | .deliver _ => some entry.2.process
  | _ => none

def exits (history : ProcessHistory) (parent : ProcessRef) : List TerminatedProcess :=
  history.filterMap (exited parent)

def waits (history : ProcessHistory) (parent : ProcessRef) : List TerminatedProcess :=
  history.filterMap (waited parent)

def leavers (history : ProcessHistory) : List ProcessRef := history.filterMap leaves

/-- A status that is delivered finds a free slot, and is not collected before its child has looked
at the queue again. -/
def ProcessTable.roomy (table : ProcessTable) (event : ProcessEvent) : Prop :=
  match event.step with
  | .deliver _ => ∀ parent ∈ (table.processes event.process).parent.toList,
      (table.processes parent).terminatedChildren.size < 8
  | .checkDelivered => ∀ parent ∈ (table.processes event.process).parent.toList,
      0 < (table.processes parent).terminatedChildren.size
  | _ => True

/-- No status is delivered before `m_parent` is assigned. -/
def ProcessTable.adopted (table : ProcessTable) (event : ProcessEvent) : Prop :=
  match event.step with
  | .deliver _ => ∀ spawner < table.next, (table.processes spawner).phase ≠ .creating event.process
  | _ => True

instance (table : ProcessTable) (event : ProcessEvent) : Decidable (table.roomy event) := by
  obtain ⟨process, step⟩ := event
  cases step with
  | deliver _ | checkDelivered => exact List.decidableBAll _ _
  | _ => exact instDecidableTrue

instance (table : ProcessTable) (event : ProcessEvent) : Decidable (table.adopted event) := by
  unfold ProcessTable.adopted; split <;> infer_instance

structure Accounts (history : ProcessHistory) (table : ProcessTable) : Prop where
  parents : ∀ {process parent}, process < table.next →
    (table.processes process).parent = some parent → parent < table.next
  heard : ∀ {parent}, table.next ≤ parent → exits history parent = [] ∧ waits history parent = []
  queues : ∀ {parent}, parent < table.next → ∃ rest,
    (table.processes parent).terminatedChildren.Represents rest ∧
    exits history parent = waits history parent ++ rest
  collecting : ∀ {process}, process < table.next → (table.processes process).phase = .collecting →
    0 < (table.processes process).terminatedChildren.size
  left : ∀ process ∈ leavers history, process < table.next ∧
    ((table.processes process).phase = .delivered ∨ (table.processes process).phase = .exited)
  once : (leavers history).Nodup

namespace Accounts
variable {history : ProcessHistory} {table after : ProcessTable} {process parent : ProcessRef}
  {step : ProcessStep}

private theorem boot : Accounts [] .boot := by
  refine ⟨fun _ => nofun, fun _ => ⟨rfl, rfl⟩,
    fun _ => ⟨[], .construct (by decide), rfl⟩, fun _ => nofun, nofun, .nil⟩

private theorem parents_step (accounts : Accounts history table)
    (permitted : table.permitted ⟨process, step⟩)
    (steps : table.Steps process step after) {other : ProcessRef} (born : other < after.next)
    (child : (after.processes other).parent = some parent) : parent < after.next := by
  obtain old | ⟨-, -, new⟩ := steps.born_cases born
  · rw [steps.parent_old old] at child
    split at child
    next => exact Option.some.inj child ▸ permitted.1.trans_le steps.next_le
    next => exact (accounts.parents old child).trans_le steps.next_le
  · rw [new] at child
    cases child

theorem exits_concat : exits (history ++ [(table, ⟨process, step⟩)]) parent =
    exits history parent ++ (exited parent (table, ⟨process, step⟩)).toList := filterMap_concat ..

theorem waits_concat : waits (history ++ [(table, ⟨process, step⟩)]) parent =
    waits history parent ++ (waited parent (table, ⟨process, step⟩)).toList := filterMap_concat ..

theorem uncounted (collects : step = .collect → parent ≠ process)
    (delivers : ∀ status, step = .deliver status → (table.processes process).parent ≠ some parent) :
    exited parent (table, ⟨process, step⟩) = none ∧
    waited parent (table, ⟨process, step⟩) = none := by
  unfold exited waited
  cases step with
  | collect => exact ⟨rfl, if_neg (collects rfl).symm⟩
  | deliver status => exact ⟨if_neg (delivers status rfl), rfl⟩
  | _ => exact ⟨rfl, rfl⟩

private theorem queues_step (accounts : Accounts history table)
    (permitted : table.permitted ⟨process, step⟩)
    (steps : table.Steps process step after) (born : parent < after.next) :
    ∃ rest, (after.processes parent).terminatedChildren.Represents rest ∧
      exits (history ++ [(table, ⟨process, step⟩)]) parent =
        waits (history ++ [(table, ⟨process, step⟩)]) parent ++ rest := by
  rw [exits_concat, waits_concat]
  obtain old | ⟨rfl, rfl, new⟩ := steps.born_cases born
  · obtain ⟨rest, represents, balance⟩ := accounts.queues old
    by_cases collects : step = .collect ∧ parent = process
    · obtain ⟨rfl, rfl⟩ := collects
      cases steps with
      | collect terminated queue dequeued =>
        obtain ⟨rest, rfl, shorter⟩ := represents.dequeued (by decide) dequeued
        have silent : exited parent (table, ⟨parent, .collect⟩) = none := rfl
        have result : waited parent (table, ⟨parent, .collect⟩) = some terminated := by
          simp [waited, ProcessTable.collect, dequeued, Except.toOption]
        rw [silent, result, ProcessTable.modify_self]
        exact ⟨rest, shorter, by simpa using balance⟩
    · by_cases delivers : ∃ status, step = .deliver status ∧
        (table.processes process).parent = some parent
      · obtain ⟨status, rfl, child⟩ := delivers
        have result : exited parent (table, ⟨process, .deliver status⟩) =
            some ⟨(table.processes process).processId, status⟩ := if_pos child
        have idle : waited parent (table, ⟨process, .deliver status⟩) = none := rfl
        cases steps with
        | orphan _ none => cases none.symm.trans child
        | deliver _ other queue same enqueued =>
          obtain rfl := Option.some.inj (same.symm.trans child)
          obtain ⟨-, longer⟩ := represents.enqueued enqueued
          rw [result, idle, ProcessTable.setPhase_queue, ProcessTable.modify_self]
          exact ⟨_, longer, by simp [balance]⟩
      · have collects : step = .collect → parent ≠ process :=
          fun same equal => collects ⟨same, equal⟩
        have delivers : ∀ status, step = .deliver status →
          (table.processes process).parent ≠ some parent :=
          fun status same child => delivers ⟨status, same, child⟩
        obtain ⟨silent, idle⟩ := @uncounted table process parent step collects delivers
        rw [silent, idle, steps.queue_old old collects delivers]
        exact ⟨rest, represents, by simpa using balance⟩
  · obtain ⟨silent, idle⟩ := accounts.heard (Nat.le_refl table.next)
    have nothing : exited table.next (table, ⟨process, .create⟩) = none := rfl
    have idling : waited table.next (table, ⟨process, .create⟩) = none := rfl
    rw [silent, idle, nothing, idling, new]
    exact ⟨[], .construct (by decide), rfl⟩

private theorem heard_step (accounts : Accounts history table)
    (permitted : table.permitted ⟨process, step⟩)
    (steps : table.Steps process step after) (unborn : after.next ≤ parent) :
    exits (history ++ [(table, ⟨process, step⟩)]) parent = [] ∧
      waits (history ++ [(table, ⟨process, step⟩)]) parent = [] := by
  have older : table.next ≤ parent := steps.next_le.trans unborn
  have apart : parent ≠ process := (permitted.1.trans_le older).ne'
  have childless : (table.processes process).parent ≠ some parent := fun child =>
    absurd (accounts.parents permitted.1 child) (Nat.not_lt.mpr older)
  obtain ⟨silent, idle⟩ := accounts.heard older
  obtain ⟨nothing, idling⟩ := @uncounted table process parent step (fun _ => apart)
    fun _ _ => childless
  rw [exits_concat, waits_concat, silent, idle, nothing, idling]
  exact ⟨rfl, rfl⟩

/-- The queue of a process in `sys$wait` does not run empty behind its back. -/
theorem collecting_step (accounts : Accounts history table)
    (permitted : table.permitted ⟨process, step⟩)
    (steps : table.Steps process step after) {other : ProcessRef} (born : other < after.next)
    (collects : (after.processes other).phase = .collecting) :
    0 < (after.processes other).terminatedChildren.size := by
  obtain old | ⟨-, -, new⟩ := steps.born_cases born
  · by_cases acts : other = process
    · subst acts
      cases steps with
      | found size =>
        rw [ProcessTable.setPhase_queue]
        exact size
      | work | nothing => cases permitted.2.symm.trans collects
      | chdir path =>
        rw [ProcessTable.modify_self] at collects
        cases permitted.2.symm.trans collects
      | create =>
        rw [ProcessTable.create_old old, ProcessTable.setPhase_self] at collects
        cases collects
      | collect =>
        rw [ProcessTable.modify_self] at collects
        cases collects
      | assignParent | assignDirectory | finishSpawn | wait | exit | orphan | deliver
      | checkDelivered =>
        cases ProcessTable.setPhase_self.symm.trans collects
    · rw [steps.phase_other old acts] at collects
      have filled := accounts.collecting old collects
      by_cases delivers : ∃ status, step = .deliver status ∧
        (table.processes process).parent = some other
      · obtain ⟨status, rfl, child⟩ := delivers
        cases steps with
        | orphan _ none => cases none.symm.trans child
        | deliver _ parent queue same enqueued =>
          obtain rfl := Option.some.inj (same.symm.trans child)
          rw [ProcessTable.setPhase_queue, ProcessTable.modify_self,
            CircularQueue.enqueue_size enqueued]
          exact Nat.succ_pos _
      · rw [steps.queue_old old (fun _ => acts) fun status same child => delivers ⟨status, same, child⟩]
        exact filled
  · rw [new] at collects
    cases collects

private theorem leaves_step (accounts : Accounts history table)
    (permitted : table.permitted ⟨process, step⟩)
    (steps : table.Steps process step after) :
    (∀ other ∈ leavers (history ++ [(table, ⟨process, step⟩)]), other < after.next ∧
      ((after.processes other).phase = .delivered ∨ (after.processes other).phase = .exited)) ∧
    (leavers (history ++ [(table, ⟨process, step⟩)])).Nodup := by
  have concat : leavers (history ++ [(table, ⟨process, step⟩)]) =
      leavers history ++ (leaves (table, ⟨process, step⟩)).toList := filterMap_concat ..
  have kept : ∀ other ∈ leavers history, other < after.next ∧
      ((after.processes other).phase = .delivered ∨ (after.processes other).phase = .exited) := by
    intro other member
    obtain ⟨born, gone⟩ := accounts.left other member
    refine ⟨born.trans_le steps.next_le, ?_⟩
    by_cases acts : other = process
    · subst acts
      obtain delivered | ended := gone
      · have reached := permitted.2.symm.trans delivered
        cases steps <;> cases reached
        exact Or.inr ProcessTable.setPhase_self
      · have reached := permitted.2.symm.trans ended
        cases step <;> cases reached
    · rwa [steps.phase_other born acts]
  have others (silent : leaves (table, ⟨process, step⟩) = none) :
      leavers (history ++ [(table, ⟨process, step⟩)]) = leavers history := by
    rw [concat, silent, Option.toList_none, List.append_nil]
  cases step with
  | deliver status =>
    have last : leavers (history ++ [(table, ⟨process, .deliver status⟩)]) = leavers history ++
      [process] := concat
    have gone : (after.processes process).phase = .delivered ∨
      (after.processes process).phase = .exited := by
      cases steps with
      | orphan => exact Or.inr ProcessTable.setPhase_self
      | deliver => exact Or.inl ProcessTable.setPhase_self
    have fresh : process ∉ leavers history := by
      intro member
      obtain delivered | ended := (accounts.left process member).2
      · cases permitted.2.symm.trans delivered
      · cases permitted.2.symm.trans ended
    rw [last]
    refine ⟨fun other member => ?_,
      List.concat_eq_append ▸ (List.nodup_concat _ _).mpr ⟨fresh, accounts.once⟩⟩
    obtain earlier | latest := List.mem_append.mp member
    · exact kept other earlier
    · obtain rfl := List.mem_singleton.mp latest
      exact ⟨permitted.1.trans_le steps.next_le, gone⟩
  | _ =>
    rw [others rfl]
    exact ⟨kept, accounts.once⟩

private theorem extend (accounts : Accounts history table)
    (permitted : table.permitted ⟨process, step⟩)
    (executed : table.step process step = .ok after) :
    Accounts (history ++ [(table, ⟨process, step⟩)]) after := by
  have steps := ProcessTable.steps executed
  obtain ⟨left, once⟩ := accounts.leaves_step permitted steps
  exact ⟨accounts.parents_step permitted steps, accounts.heard_step permitted steps,
    accounts.queues_step permitted steps,
    accounts.collecting_step permitted steps, left, once⟩

/-- Every assertion on the way of a status holds exactly if the status finds a free slot and is not
collected too early. -/
theorem succeeds_iff (accounts : Accounts history table)
    (permitted : table.permitted ⟨process, step⟩) :
    (∃ after, table.step process step = .ok after) ↔ table.roomy ⟨process, step⟩ := by
  unfold ProcessTable.roomy
  cases step with
  | collect =>
    refine ⟨fun _ => trivial, fun _ => ?_⟩
    obtain ⟨rest, represents, -⟩ := accounts.queues permitted.1
    have filled := accounts.collecting permitted.1 permitted.2
    rw [represents.size] at filled
    obtain ⟨first, rest, rfl⟩ := List.exists_cons_of_length_pos filled
    obtain ⟨queue, dequeued, -⟩ := represents.dequeue (by decide)
    simp only [ProcessTable.step, ProcessTable.collect, dequeued]
    exact ⟨_, rfl⟩
  | deliver status =>
    simp only [ProcessTable.step, ProcessTable.deliver]
    cases child : (table.processes process).parent with
    | none => exact ⟨fun _ _ member => absurd member List.not_mem_nil, fun _ => ⟨_, rfl⟩⟩
    | some parent =>
      obtain ⟨rest, represents, -⟩ := accounts.queues (accounts.parents permitted.1 child)
      have enqueued := represents.enqueue ⟨(table.processes process).processId, status⟩
      simp only [Option.toList_some, List.mem_singleton, forall_eq, represents.size]
      by_cases room : rest.length < 8
      · rw [if_pos room] at enqueued
        obtain ⟨queue, enqueued, -⟩ := enqueued
        rw [enqueued]
        exact ⟨fun _ => room, fun _ => ⟨_, rfl⟩⟩
      · rw [if_neg room] at enqueued
        rw [enqueued]
        refine ⟨?_, fun fits => absurd fits room⟩
        rintro ⟨after, executed⟩
        cases executed
  | checkDelivered =>
    simp only [ProcessTable.step, ProcessTable.checkDelivered]
    cases child : (table.processes process).parent with
    | none => exact ⟨fun _ _ member => absurd member List.not_mem_nil, fun _ => ⟨_, rfl⟩⟩
    | some parent =>
      simp only [Option.toList_some, List.mem_singleton, forall_eq]
      by_cases filled : (table.processes parent).terminatedChildren.size > 0
      · rw [if_pos filled]
        exact ⟨fun _ => filled, fun _ => ⟨_, rfl⟩⟩
      · rw [if_neg filled]
        refine ⟨?_, fun some => absurd some filled⟩
        rintro ⟨after, executed⟩
        cases executed
  | _ => exact ⟨fun _ => trivial, fun _ => ⟨_, rfl⟩⟩

end Accounts

private theorem accounts_of_run {history : ProcessHistory} {table : ProcessTable}
    (run : ProcessTable.machine.Run .boot history table) : Accounts history table :=
  run.induct Accounts .boot fun _ earlier permitted executed => earlier.extend permitted executed

/-- A child that leaves once `m_parent` is assigned leaves its status with its spawner. -/
theorem left_to_spawner {history : ProcessHistory} {table : ProcessTable}
    (run : ProcessTable.machine.Run .boot history table) :
    (∀ entry ∈ history, entry.1.adopted entry.2) → ∀ entry ∈ history, ∀ status parent start,
      entry.2.step = .deliver status → Spawned history entry.2.process parent start →
        (entry.1.processes entry.2.process).parent = some parent := by
  induction run with
  | start => exact fun _ entry member => absurd member List.not_mem_nil
  | @step history table event after run permitted executed ih =>
    intro meets entry member status parent start leaves spawned
    have lineage := lineage_of_run run
    obtain earlier | last := List.mem_append.mp member
    · have meets : ∀ entry ∈ history, entry.1.adopted entry.2 :=
        fun entry member => meets entry (List.mem_append_left _ member)
      obtain before | ⟨-, new, -⟩ := spawned.cases
      · exact ih meets entry earlier status parent start leaves before
      · exact absurd (new ▸ lineage.acted entry earlier) (Nat.lt_irrefl _)
    · obtain rfl := List.mem_singleton.mp last
      have leaves : event.step = .deliver status := leaves
      have adopted : table.adopted event := meets _ member
      obtain before | ⟨creates, -, -⟩ := spawned.cases
      · have link := lineage.linked before
        unfold ProcessTable.adopted at adopted
        rw [leaves] at adopted
        exact link.adopted.resolve_left (adopted parent link.born)
      · rw [creates] at leaves
        cases leaves

/-- What the parent collected is what its children left so far, up to what is still queued; no child
leaves twice, all of them leave their status with their spawner, and an assertion fails only when
the queue is full or was emptied early. -/
theorem exit_statuses {history : ProcessHistory} {table : ProcessTable}
    (run : ProcessTable.machine.Run .boot history table)
    (meets : ∀ entry ∈ history, entry.1.roomy entry.2 ∧ entry.1.adopted entry.2) :
    (∀ parent < table.next, ∃ rest, (table.processes parent).terminatedChildren.Represents rest ∧
      exits history parent = waits history parent ++ rest) ∧
    (leavers history).Nodup ∧
    (∀ entry ∈ history, ∀ status parent start, entry.2.step = .deliver status →
      Spawned history entry.2.process parent start →
      (entry.1.processes entry.2.process).parent = some parent) ∧
    ∀ event, table.permitted event →
      ((∃ after, table.step event.process event.step = .ok after) ↔ table.roomy event) := by
  have accounts := accounts_of_run run
  exact ⟨fun _ born => accounts.queues born, accounts.once,
    left_to_spawner run fun entry member => (meets entry member).2, fun _ permitted =>
      accounts.succeeds_iff permitted⟩

def ProcessEvent.spawn (child : ProcessRef) : List ProcessEvent :=
  [⟨0, .create⟩, ⟨0, .assignParent child⟩, ⟨0, .assignDirectory child⟩, ⟨0, .finishSpawn child⟩]

def ProcessEvent.leave (child : ProcessRef) : List ProcessEvent :=
  [⟨child, .exit 7⟩, ⟨child, .deliver 7⟩, ⟨child, .checkDelivered⟩]

theorem exit_statuses_one : ∃ history table, ProcessTable.machine.Run .boot history table ∧
    (table.processes 0).terminatedChildren.size = 1 ∧
      ∃ rest, (table.processes 0).terminatedChildren.Represents rest ∧
      exits history 0 = waits history 0 ++ rest := by
  have played : ((ProcessTable.machine.restrict fun table event => table.roomy event ∧
    table.adopted event).after .boot
      (ProcessEvent.spawn 1 ++ ProcessEvent.spawn 2 ++ ProcessEvent.leave 2 ++ [⟨0, .wait⟩,
        ⟨0, .poll⟩, ⟨0, .collect⟩] ++
        ProcessEvent.leave 1)).map (fun table =>
          (decide (0 < table.next), (table.processes 0).terminatedChildren.size)) = some (true,
            1) := by decide +kernel
  obtain ⟨table, played, outcome⟩ := Option.map_eq_some_iff.mp played
  obtain ⟨born, size⟩ := Prod.mk.inj outcome
  obtain ⟨history, restricted⟩ := Machine.reachable_after played
  obtain ⟨run, meets⟩ := restricted.unrestrict
  obtain ⟨balance, -⟩ := exit_statuses run meets
  exact ⟨history, table, run, size, balance 0 (of_decide_eq_true born)⟩

def failure (events : List ProcessEvent) (event : ProcessEvent) : Option (Option ProcessFault) :=
  (ProcessTable.machine.after .boot events).bind fun table =>
    if table.permitted event then
      match table.step event.process event.step with
      | .ok _ => some none
      | .error fault => some (some fault)
    else none

private theorem failure_run {events : List ProcessEvent} {event : ProcessEvent}
    {fault : ProcessFault}
    (fails : failure events event = some (some fault)) :
    ∃ history table, ProcessTable.machine.Run .boot history table ∧
      table.permitted event ∧ table.step event.process event.step = .error fault := by
  obtain ⟨table, played, outcome⟩ := Option.bind_eq_some_iff.mp fails
  obtain ⟨history, run⟩ := Machine.reachable_after played
  split at outcome
  next permitted =>
    split at outcome
    next => cases outcome
    next reason executed =>
      cases outcome
      exact ⟨history, table, run, permitted, executed⟩
  next => cases outcome

/-- The ninth child that leaves before its parent waits, and a child whose status is collected
before it looks at the queue again, both fail an assertion. -/
theorem statuses_lost : (∃ history table, ProcessTable.machine.Run .boot history table ∧
    table.permitted ⟨9, .deliver 7⟩ ∧
      table.step 9 (.deliver 7) = .error (.queue .full)) ∧
    ∃ history table, ProcessTable.machine.Run .boot history table ∧
    table.permitted ⟨1, .checkDelivered⟩ ∧
      table.step 1 .checkDelivered = .error .notDelivered := by
  have full : failure ((List.range 9).flatMap (fun child => ProcessEvent.spawn (child + 1)) ++
      (List.range 8).flatMap (fun child => ProcessEvent.leave (child + 1)) ++
        [⟨9, .exit 7⟩]) ⟨9, .deliver 7⟩ =
      some (some (.queue .full)) := by decide +kernel
  have early : failure (ProcessEvent.spawn 1 ++ [⟨1, .exit 7⟩, ⟨1, .deliver 7⟩, ⟨0, .wait⟩,
    ⟨0, .poll⟩, ⟨0, .collect⟩])
      ⟨1, .checkDelivered⟩ = some (some .notDelivered) := by decide +kernel
  exact ⟨failure_run full, failure_run early⟩

end PicoOs.Kernel
