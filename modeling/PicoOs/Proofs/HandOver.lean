import PicoOs.Proofs.MutexRuns

/-! Hand-over of a mutex among ordinary threads: requests are granted in the order in
which they were enqueued, and a waiting thread is in no queue of the scheduler. -/

namespace PicoOs.Kernel
open Library

namespace State

/-- The thread that has to wait for the mutex after this step. -/
def blocks (mutex : MutexId) (state : State) : SystemEvent → Option ThreadId
  | .thread thread (.lock key) =>
    if key = mutex ∧ (state.mutexes mutex).holdingThread ≠ none then some thread else none
  | _ => none

/-- The waiting thread to which this step hands the mutex. -/
def grants (mutex : MutexId) (state : State) : SystemEvent → Option ThreadId
  | .thread _ (.unlock key) =>
      if key = mutex then (state.mutexes mutex).waitingThreads.head? else none
  | _ => none

/-- Ordinary threads that do not hold the mutex are the only ones that lock it. -/
def locksOrdinary (mutex : MutexId) (state : State) : SystemEvent → Prop
  | .thread thread (.lock key) =>
    key = mutex → state.role thread = .ordinary ∧ mutex ∉ (state.threads thread).locks
  | _ => True

instance (mutex : MutexId) (state : State) (event : SystemEvent) :
    Decidable (state.locksOrdinary mutex event) := by
  unfold locksOrdinary
  split <;> infer_instance

end State

def blockings (mutex : MutexId) (history : List (State × SystemEvent)) : List ThreadId :=
  history.filterMap fun entry => entry.1.blocks mutex entry.2

def handOvers (mutex : MutexId) (history : List (State × SystemEvent)) : List ThreadId :=
  history.filterMap fun entry => entry.1.grants mutex entry.2

private theorem MutexChange.waiting_step {before after : State} {mutex : MutexId}
    {event : SystemEvent}
    (change : MutexChange before after mutex event) :
    (before.mutexes mutex).waitingThreads ++ (before.blocks mutex event).toList =
      (before.grants mutex event).toList ++ (after.mutexes mutex).waitingThreads := by
  cases change with
  | untouched other holding waiting =>
    have blocks : before.blocks mutex event = none := by
      unfold State.blocks
      split
      next thread key => exact if_neg fun both => (other thread).1 (by rw [both.1])
      next => rfl
    have grants : before.grants mutex event = none := by
      unfold State.grants
      split
      next thread key => exact if_neg fun same => (other thread).2 (by rw [same])
      next => rfl
    rw [blocks, grants, waiting]
    exact List.append_nil _
  | acquired thread free same =>
    subst same
    have blocks : before.blocks mutex (.thread thread (.lock mutex)) = none :=
      if_neg fun both => both.2 free
    rw [blocks, State.acquired, State.setMutex_self]
    exact List.append_nil _
  | blocked thread held same =>
    subst same
    have blocks : before.blocks mutex (.thread thread (.lock mutex)) = some thread :=
      if_pos ⟨rfl, held⟩
    have after : ((before.blocked thread mutex).mutexes mutex).waitingThreads =
        (before.mutexes mutex).waitingThreads ++ [thread] := by
      rw [State.blocked, State.setMutex_self]
    rw [blocks, after]
    rfl
  | released thread none same =>
    subst same
    have grants : before.grants mutex (.thread thread (.unlock mutex)) =
      (before.mutexes mutex).waitingThreads.head? :=
      if_pos rfl
    rw [grants, State.unlocked_mutexes, Function.update_self, none]
    rfl
  | handed thread next rest waiting differs same =>
    subst same
    have grants : before.grants mutex (.thread thread (.unlock mutex)) =
      (before.mutexes mutex).waitingThreads.head? :=
      if_pos rfl
    rw [grants, State.inherited_mutexes, Function.update_self, waiting]
    exact List.append_nil _

/-- What was blocked is what was granted, in the same order, followed by what still waits. -/
theorem waiting_run {stack : ThreadId → PageRange} {context : ThreadId → FullRegisterContext}
    {state : State}
    {history : List (State × SystemEvent)} (mutex : MutexId)
    (run : State.machine.Run (State.boot stack context) history state) :
    blockings mutex history = handOvers mutex history ++ (state.mutexes mutex).waitingThreads := by
  refine run.induct (fun history state =>
    blockings mutex history = handOvers mutex history ++
      (state.mutexes mutex).waitingThreads) rfl ?_
  intro history state event next run earlier permitted executed
  have change := (reachable_valid ⟨history, run⟩).1.mutex_change permitted executed mutex
  unfold blockings handOvers at earlier ⊢
  rw [List.filterMap_append, List.filterMap_append, earlier, List.append_assoc, List.append_assoc]
  have last : ∀ pick : State × SystemEvent → Option ThreadId,
      [(state, event)].filterMap pick = (pick (state, event)).toList := by
    intro pick
    cases result : pick (state, event) <;> simp [result]
  rw [last, last]
  exact congrArg _ change.waiting_step

structure Queueing (state : State) (mutex : MutexId) : Prop where
  ordinary : ∀ thread ∈ (state.mutexes mutex).waitingThreads, state.role thread = .ordinary
  holder : ∀ thread, (state.mutexes mutex).holdingThread = some thread →
    state.role thread = .ordinary ∧ thread ∉ (state.mutexes mutex).waitingThreads

namespace Valid
variable {state after : State} {mutex : MutexId} {thread : ThreadId}

theorem waiting_fine (valid : Valid state) (waits : thread ∈ (state.mutexes mutex).waitingThreads)
    (ordinary : state.role thread = .ordinary) : (state.threads thread).maskedFromScheduler = true ∧
      (state.threads thread).acquiring = some mutex ∧
      (state.mutexes mutex).waitingThreads.count thread = 1 :=
  (valid.sound thread).waits ordinary mutex (List.one_le_count_iff.mpr waits)

theorem locked_born (valid : Valid state) (locked : 1 ≤ (state.view thread).locked) :
    thread < state.next :=
  State.born_of_point valid.sound (ProgramPoint.setUp_excludes ((valid.sound thread).reached locked)).2.2

private theorem waiting_born (valid : Valid state)
    (waits : thread ∈ (state.mutexes mutex).waitingThreads) : thread < state.next := by
  have counted : 1 ≤ (state.view thread).waits mutex := List.one_le_count_iff.mpr waits
  refine valid.locked_born ?_
  cases mutex <;> simp only [View.locked] <;> omega

private theorem holding_born (valid : Valid state)
    (holds : (state.mutexes mutex).holdingThread = some thread) :
    thread < state.next := by
  have counted : 1 ≤ (state.view thread).holding mutex := by simp [State.view, holds]
  refine valid.locked_born ?_
  cases mutex <;> simp only [View.locked] <;> omega

private theorem queueing_step (valid : Valid state) {event : SystemEvent}
    (permitted : state.permitted event)
    (executed : state.execute event = .ok after) (locks : state.locksOrdinary mutex event)
    (queueing : Queueing state mutex) :
    Queueing after mutex := by
  have role {other : ThreadId} (born : other < state.next) : after.role other = state.role other :=
    valid.role_kept permitted executed born
  have waiters : ∀ other ∈ (state.mutexes mutex).waitingThreads, after.role other = .ordinary :=
    fun other waits =>
    (role (valid.waiting_born waits)).trans (queueing.ordinary other waits)
  have holders : ∀ other, (state.mutexes mutex).holdingThread = some other →
    after.role other = .ordinary := fun other holds =>
    (role (valid.holding_born holds)).trans (queueing.holder other holds).1
  have change := valid.mutex_change permitted executed mutex
  cases change with
  | untouched other holding waiting =>
    refine ⟨fun another waits => ?_, fun another holds => ?_⟩
    · rw [waiting] at waits
      exact waiters another waits
    · rw [holding] at holds
      rw [waiting]
      exact ⟨holders another holds, (queueing.holder another holds).2⟩
  | acquired thread free same =>
    obtain ⟨_, running, may⟩ := permitted
    obtain ⟨ordinary, unlocked⟩ := locks rfl
    have born := State.active_born valid.sound running
    have mutexes : after.mutexes mutex = { state.mutexes mutex with holdingThread := some thread } := by
      rw [same, State.acquired, State.setMutex_self]
    refine ⟨fun another waits => ?_, fun another holds => ?_⟩
    · rw [mutexes] at waits
      exact waiters another waits
    · rw [mutexes] at holds ⊢
      obtain rfl : thread = another := Option.some.inj holds
      refine ⟨(role born).trans ordinary, fun waits => ?_⟩
      cases may.2.symm.trans (valid.waiting_fine waits ordinary).2.1
  | blocked thread held same =>
    obtain ⟨_, running, may⟩ := permitted
    obtain ⟨ordinary, unlocked⟩ := locks rfl
    have born := State.active_born valid.sound running
    have mutexes : after.mutexes mutex =
        { state.mutexes mutex with waitingThreads := (state.mutexes mutex).waitingThreads ++ [thread] } := by
      rw [same]
      exact State.setMutex_self ..
    refine ⟨fun another waits => ?_, fun another holds => ?_⟩
    · rw [mutexes] at waits
      obtain waits | last := List.mem_append.mp waits
      · exact waiters another waits
      · rw [List.mem_singleton.mp last]
        exact (role born).trans ordinary
    · rw [mutexes] at holds ⊢
      refine ⟨holders another holds,
        List.not_mem_append (queueing.holder another holds).2 fun last => ?_⟩
      obtain rfl := List.mem_singleton.mp last
      have holder : (state.mutexes mutex).holdingThread = some another := holds
      have counted : 1 ≤ (state.view another).holding mutex := by simp [State.view, holder]
      obtain inside | acquiring := (valid.sound another).holding ordinary mutex counted
      · exact unlocked inside
      · cases may.2.symm.trans acquiring
  | released thread none same =>
    have mutexes : after.mutexes mutex = { state.mutexes mutex with holdingThread := Option.none } := by
      rw [same, State.unlocked_mutexes, Function.update_self]
    refine ⟨fun another waits => ?_, fun another holds => ?_⟩
    · rw [mutexes] at waits
      exact waiters another waits
    · rw [mutexes] at holds
      cases holds
  | handed thread next rest waiting differs same =>
    have mutexes : after.mutexes mutex =
        { state.mutexes mutex with holdingThread := some next, waitingThreads := rest } := by
      rw [same, State.inherited_mutexes, Function.update_self]
    have member : next ∈ (state.mutexes mutex).waitingThreads := by
      rw [waiting]
      exact List.mem_cons_self
    refine ⟨fun another waits => ?_, fun another holds => ?_⟩
    · rw [mutexes] at waits
      refine waiters another ?_
      rw [waiting]
      exact List.mem_cons_of_mem _ waits
    · rw [mutexes] at holds ⊢
      obtain rfl : next = another := Option.some.inj holds
      refine ⟨waiters next member, fun again => ?_⟩
      have single := (valid.waiting_fine member (queueing.ordinary next member)).2.2
      rw [waiting, List.count_cons_self] at single
      have counted : 1 ≤ rest.count next := List.one_le_count_iff.mpr again
      omega

end Valid

theorem mutex_hand_over {stack : ThreadId → PageRange} {context : ThreadId → FullRegisterContext}
    {state : State}
    {history : List (State × SystemEvent)} {mutex : MutexId}
    (run : State.machine.Run (State.boot stack context) history state)
    (locks : ∀ entry ∈ history, entry.1.locksOrdinary mutex entry.2) :
    blockings mutex history = handOvers mutex history ++ (state.mutexes mutex).waitingThreads ∧
      (state.mutexes mutex).waitingThreads.Nodup ∧
      (∀ thread ∈ (state.mutexes mutex).waitingThreads,
        (state.threads thread).maskedFromScheduler = true ∧
        (state.threads thread).acquiring = some mutex ∧ thread ∉ state.queuedThreads ∧
        thread ∉ state.danglingThreads) ∧
      (∀ thread, (state.mutexes mutex).holdingThread = some thread →
        thread ∉ (state.mutexes mutex).waitingThreads) ∧
      ∀ thread next rest after, (state.mutexes mutex).waitingThreads = next :: rest →
        state.permitted (.thread thread (.unlock mutex)) →
        state.execute (.thread thread (.unlock mutex)) = .ok after →
        after.mutexes mutex = { state.mutexes mutex with holdingThread := some next, waitingThreads := rest } ∧
          next ∉ state.queuedThreads ∧ after.queuedThreads = state.queuedThreads ++ [next] ∧
          (after.threads next).maskedFromScheduler = false := by
  obtain ⟨valid, -⟩ := reachable_valid ⟨history, run⟩
  have queueing := run.invariant_under (fun state => Queueing state mutex)
    (fun state event => state.locksOrdinary mutex event)
    ⟨fun _ waits => (List.not_mem_nil waits).elim,
      fun _ holds => nomatch (show none = some _ from holds)⟩
    (fun reachable earlier meets permitted executed =>
      (reachable_valid reachable).1.queueing_step permitted executed meets earlier) locks
  have absent : ∀ thread ∈ (state.mutexes mutex).waitingThreads,
      thread ∉ state.queuedThreads ∧ thread ∉ state.danglingThreads := by
    intro thread waits
    have ordinary := queueing.ordinary thread waits
    have ⟨masked, acquiring, _⟩ := valid.waiting_fine waits ordinary
    refine ⟨fun queued => ?_, fun dangling => ?_⟩
    · have ready : 1 ≤ (state.view thread).ready :=
        (List.one_le_count_iff.mpr queued).trans (Nat.le_add_right ..)
      have awake : (state.threads thread).maskedFromScheduler = false :=
        ((valid.sound thread).ready ready).2 fun default =>
          absurd (default.symm.trans ordinary) nofun
      rw [awake] at masked
      cases masked
    · have allocates := (valid.sound thread).locks
        (Or.inr (by rw [State.view_thread, acquiring]; nofun))
      have ended : (state.view thread).thread.point.ends = true :=
        State.dangling_ends valid.sound dangling
      rw [(ProgramPoint.allocates_excludes allocates).2.1] at ended
      cases ended
  refine ⟨waiting_run mutex run, ?_, fun thread waits => ?_,
    fun thread holds => (queueing.holder thread holds).2, ?_⟩
  · apply List.nodup_iff_count_le_one.mpr
    intro thread
    by_cases waits : thread ∈ (state.mutexes mutex).waitingThreads
    · exact (valid.waiting_fine waits (queueing.ordinary thread waits)).2.2.le
    · rw [List.count_eq_zero.mpr waits]
      exact Nat.zero_le _
  · have ⟨masked, acquiring, _⟩ := valid.waiting_fine waits (queueing.ordinary thread waits)
    exact ⟨masked, acquiring, absent thread waits⟩
  · intro thread next rest after waiting permitted executed
    have member : next ∈ (state.mutexes mutex).waitingThreads := by
      rw [waiting]
      exact List.mem_cons_self
    have masked := (valid.waiting_fine member (queueing.ordinary next member)).1
    have change := valid.mutex_change permitted executed mutex
    cases change with
    | untouched other holding waiting => exact absurd rfl (other thread).2
    | released _ none same =>
      rw [waiting] at none
      cases none
    | handed _ next' rest' waiting' differs same =>
      obtain ⟨rfl, rfl⟩ := List.cons.inj (waiting.symm.trans waiting')
      have asleep : (((state.dropped thread mutex).released mutex).threads next).maskedFromScheduler = true :=
        (State.unlocked_masked next).trans masked
      subst same
      refine ⟨?_, (absent next member).1, ?_, ?_⟩
      · rw [State.inherited_mutexes, Function.update_self]
      · rw [State.inherited, State.woken_queued, State.setMutex_threads, asleep, if_pos rfl]
        exact congrArg (· ++ [next]) State.released_queued
      · exact State.woken_awake

/-- A worker, thread 6, holds the mutex of the heap, and the process that it has started, thread 7,
has to wait for it. -/
def SystemEvent.meeting : List SystemEvent :=
  [.thread 5 .handOver, .thread 5 .svc, .thread 4 .checkWaiting, .thread 4 .takeWaiting,
    .thread 4 (.readContext 5),
    .thread 4 .construct, .thread 4 (.setup 6 ⟨11, 0⟩ (entryContext 0 0)),
      .thread 4 (.enqueueChild 6), .thread 4 .finish,
    .thread 4 .checkWaiting, .pendSV, .thread 6 .construct,
      .thread 6 (.setup 7 ⟨11, 0⟩ (entryContext 0 0)),
    .thread 6 (.enqueueChild 7), .thread 6 (.lock .malloc), .tick, .pendSV,
      .thread 7 (.lock .malloc), .pendSV]

theorem mutex_hand_over_meeting : ∃ history state, State.machine.Run .bootPlain history state ∧
    (state.mutexes .malloc).waitingThreads = [7] ∧
    blockings .malloc history = handOvers .malloc history ++ [7] ∧
      (state.threads 7).maskedFromScheduler = true ∧ 7 ∉ state.queuedThreads ∧
      ∀ after, state.execute (.thread 6 (.unlock .malloc)) = .ok after →
      after.queuedThreads = state.queuedThreads ++ [7] := by
  have played : ((State.machine.restrict (State.locksOrdinary .malloc)).after .bootPlain
      (SystemEvent.startup ++ SystemEvent.destroys 3 ++ SystemEvent.meeting)).map (fun state =>
        ((state.mutexes .malloc).waitingThreads, decide (state.permitted (.thread 6 (.unlock .malloc))))) = some ([7], true) := by
    decide +kernel
  obtain ⟨state, executed, shape⟩ := Option.map_eq_some_iff.mp played
  obtain ⟨waiting, permitted⟩ := Prod.mk.inj shape
  obtain ⟨history, restricted⟩ := Machine.reachable_after executed
  obtain ⟨run, locks⟩ := restricted.unrestrict
  obtain ⟨order, -, parked, -, hands⟩ := mutex_hand_over run locks
  rw [waiting] at order parked
  have ⟨masked, _, absent, _⟩ := parked 7 (List.mem_singleton_self _)
  exact ⟨history, state, run, waiting, order, masked, absent, fun after unlocked =>
    (hands 6 7 [] after waiting (of_decide_eq_true permitted) unlocked).2.2.1⟩

end PicoOs.Kernel
