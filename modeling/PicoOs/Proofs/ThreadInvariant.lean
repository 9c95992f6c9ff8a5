import PicoOs.Proofs.SchedulerSteps
import PicoOs.Kernel.System

/-! The invariant of the thread system between two steps. -/

namespace PicoOs.Kernel
open Library

namespace ProgramPoint

def starts : ProgramPoint → Bool
  | startupBegin | startupHandler => true
  | _ => false

def late : ProgramPoint → Bool
  | startupReady | startupDone | workerCall _ | workerReturn _ _ _ | workerStored _ _
  | workerUnmasked _
  | processStart | userMode => true
  | _ => false

/-- A thread may go from one point to the other in one step of its own. -/
structure Leads (point next : ProgramPoint) : Prop where
  fits : ∀ role, point.fits role = true → next.fits role = true
  setUp : next.setUp = true
  starts : next.starts = false
  ends : next.ends = point.ends
  late : next.late = true → point.late = true

end ProgramPoint

def State.served (state : State) : Prop :=
  ∃ handler, state.systemHandler = some handler ∧ (state.threads handler).point.setUp = true

theorem Thread.count_holds (value : Thread) (kind : Hold) (thread : ThreadId) :
    value.holds.count (kind, thread) = value.point.holds.count (kind, thread) +
      value.child.holds.count (kind, thread) :=
  List.count_append

theorem State.counted {state : State} {thread other : ThreadId} {kind : Hold}
    (born : thread < state.next)
    (member : (kind, other) ∈ (state.threads thread).holds) : 1 ≤ (state.view other).tally kind :=
  ((Nat.succ_le_of_lt (List.count_pos_iff.mpr member)).trans (@count_le_held state.threads _ _ born kind other)).trans
    (Nat.le_add_left ..)

theorem State.born_of_point {state : State} {thread : ThreadId} (sound : state.Sound)
    (point : (state.threads thread).point ≠ .unborn) : thread < state.next := by
  by_contra unborn
  exact point ((sound thread).born.mp (decide_eq_false unborn))

theorem State.active_born {state : State} {thread : ThreadId} (sound : state.Sound)
    (active : state.activeThread = some thread) : thread < state.next := by
  have setUp := (sound thread).running (by simp [State.view, active])
  exact State.born_of_point sound (ProgramPoint.setUp_excludes setUp).2.2

theorem State.dangling_ends {state : State} {thread : ThreadId} (sound : state.Sound)
    (dangling : thread ∈ state.danglingThreads) : (state.threads thread).point.ends = true :=
  ((sound thread).doomed ((List.one_le_count_iff.mpr dangling).trans (Nat.le_add_right ..))).1

/-- The thread that `crt0_init` of the default thread is about to destroy has nothing left to do. -/
theorem State.released_ends {state : State} {thread victim : ThreadId} (sound : state.Sound)
    (active : state.activeThread = some thread)
    (point : (state.threads thread).point = .defaultRelease victim) :
    (state.threads victim).point.ends = true := by
  have doomed : 1 ≤ (state.view victim).tally .doomed :=
    State.counted (State.active_born sound active)
    (List.mem_append_left _ (by rw [point]; exact List.mem_singleton_self _))
  exact ((sound victim).doomed doomed).1

structure Order (state : State) : Prop where
  born : 4 ≤ state.next
  handler : ∀ handler, state.systemHandler = some handler → 4 ≤ handler ∧ handler < state.next
  starting : ∀ thread, (state.threads thread).point.starts = true → thread = startupThread
  begin : (state.threads startupThread).point = .startupBegin → state.systemHandler = none
  fresh : (state.threads startupThread).point = .startupHandler →
    ∃ handler, state.systemHandler = some handler ∧ (state.threads handler).point = .fresh
  late : ∀ thread, (state.threads thread).point.late = true → state.served

structure Booting (state : State) : Prop where
  active : state.activeThread = some dummyThread
  point : (state.threads dummyThread).point = .dummyStart
  disabled : state.enabled = false
  quiet : state.pendSV = false
  free : ∀ mutex, (state.mutexes mutex).slots = []

structure Valid (state : State) : Prop where
  sound : state.Sound
  order : Order state
  contexts : Contexts state state.activeThread
  active : state.activeThread ≠ none
  pending : ∀ thread, state.activeThread = some thread →
    (state.threads thread).maskedFromScheduler = true →
    thread ≠ defaultThread → state.pendSV = true ∨ (state.threads thread).point.ends = true
  gates : (∀ mutex, (state.mutexes mutex).enabled = true) ∨ Booting state

theorem Order.step {before after : State} (order : Order before) (next : before.next ≤ after.next)
    (handler : after.systemHandler = before.systemHandler)
    (points : ∀ thread, (after.threads thread).point = (before.threads thread).point ∨
      ((after.threads thread).point.starts = false ∧
        ((after.threads thread).point.late = true → before.served)))
    (ready : ∀ handler, before.systemHandler = some handler →
      (after.threads handler).point = (before.threads handler).point ∨
      ((before.threads handler).point ≠ .fresh ∧ (after.threads handler).point.setUp = true)) :
      Order after := by
  have served : before.served → after.served := by
    intro ⟨server, serves, setUp⟩
    refine ⟨server, handler.trans serves, ?_⟩
    obtain same | ⟨-, setUp⟩ := ready server serves
    · rwa [same]
    · exact setUp
  refine ⟨order.born.trans next, fun server serves => ?_, fun thread starts => ?_, fun begins => ?_,
    fun begins => ?_,
    fun thread late => ?_⟩
  · have ⟨large, born⟩ := order.handler server (handler ▸ serves)
    exact ⟨large, born.trans_le next⟩
  · obtain same | ⟨no, -⟩ := points thread
    · exact order.starting thread (same ▸ starts)
    · rw [no] at starts
      cases starts
  · rw [handler]
    obtain same | ⟨no, -⟩ := points startupThread
    · exact order.begin (same ▸ begins)
    · rw [begins] at no
      cases no
  · obtain same | ⟨no, -⟩ := points startupThread
    · obtain ⟨server, serves, fresh⟩ := order.fresh (same ▸ begins)
      refine ⟨server, handler.trans serves, ?_⟩
      obtain same | ⟨differs, -⟩ := ready server serves
      · exact same.trans fresh
      · exact absurd fresh differs
    · rw [begins] at no
      cases no
  · obtain same | ⟨-, served'⟩ := points thread
    · exact served (order.late thread (same ▸ late))
    · exact served (served' late)

theorem Quiet.order {before after : State} (quiet : Quiet before after) (order : Order before) :
    Order after :=
  order.step quiet.next.ge quiet.systemHandler (fun thread => Or.inl (quiet.points thread)) fun _ _ =>
    Or.inl (quiet.points _)

theorem State.trigger_yields {state : State} :
    Yields (KernelFault.possible · = true) state.trigger (· = { state with pendSV := true }) := by
  unfold trigger
  split
  · exact Yields.ok rfl
  · exact Yields.error rfl

namespace Valid
variable {before after : State} {thread : ThreadId}

theorem opened (valid : Valid before) (running : before.activeThread = some thread)
    (elsewhere : (before.threads thread).point ≠ .dummyStart) :
    ∀ mutex, (before.mutexes mutex).enabled = true := by
  obtain opened | booting := valid.gates
  · exact opened
  · have same : dummyThread = thread := Option.some.inj (booting.active.symm.trans running)
    exact absurd (same ▸ booting.point) elsewhere

/-- Steps that leave points and contexts alone. -/
theorem quiet (valid : Valid before) (opened : ∀ mutex, (before.mutexes mutex).enabled = true)
    (sound : after.Sound)
    (quiet : Quiet before after) (active : after.activeThread = before.activeThread)
    (masks : ∀ thread, (after.threads thread).maskedFromScheduler = true →
      after.pendSV = true ∨ (before.threads thread).maskedFromScheduler = true)
    (pending : before.pendSV = true → after.pendSV = true) : Valid after := by
  refine ⟨sound, quiet.order valid.order, ?_, ?_, fun thread running masked differs => ?_,
    Or.inl fun mutex => ?_⟩
  · rw [active]
    exact quiet.saved valid.contexts
  · rw [active]
    exact valid.active
  · obtain waits | masked := masks thread masked
    · exact Or.inl waits
    · rw [quiet.points]
      exact (valid.pending thread (active ▸ running) masked differs).imp_left pending
  · rw [quiet.enabled]
    exact opened mutex

theorem childless (valid : Valid before)
    (none : (before.threads thread).point.mayHaveChild = false) :
    (before.threads thread).child = .none := by
  by_contra child
  have may : (before.threads thread).point.mayHaveChild = true := (valid.sound thread).child child
  rw [none] at may
  cases may

/-- The active thread changes; how its references move is left to the proof that the views stay
fine. -/
theorem follow (valid : Valid before) (opened : ∀ mutex, (after.mutexes mutex).enabled = true)
    (running : before.activeThread = some thread) (value : Thread) (sound : after.Sound)
    (setUp : value.point.setUp = true) (starts : value.point.starts = false)
    (late : value.point.late = true → (before.threads thread).point.late = true)
    (ends : (before.threads thread).point.ends = true → value.point.ends = true)
    (context : value.stashedContext = (before.threads thread).stashedContext)
    (masks : value.maskedFromScheduler = true →
      (before.threads thread).maskedFromScheduler = true ∨ value.point.ends = true)
    (threads : after.threads = Function.update before.threads thread value)
    (same : after.next = before.next ∧ after.systemHandler = before.systemHandler ∧
      after.activeThread = before.activeThread)
    (pending : before.pendSV = true → after.pendSV = true) : Valid after := by
  have ⟨next, handler, active⟩ := same
  have alive : (before.threads thread).point.setUp = true :=
    (valid.sound thread).running (by simp [State.view, running])
  have points : ∀ other, other ≠ thread → after.threads other = before.threads other := by
    intro other differs
    rw [threads, Function.update_of_ne differs]
  have moved : after.threads thread = value := by rw [threads, Function.update_self]
  refine ⟨sound, ?_, fun other => ?_, active ▸ valid.active,
    fun other runs masked differs => ?_, Or.inl opened⟩
  · refine valid.order.step next.ge handler (fun other => ?_) fun other _ => ?_
    · by_cases target : other = thread
      · subst target
        rw [moved]
        exact Or.inr ⟨starts, fun new => valid.order.late other (late new)⟩
      · exact Or.inl (congrArg Thread.point (points other target))
    · by_cases target : other = thread
      · subst target
        rw [moved]
        exact Or.inr ⟨(ProgramPoint.setUp_excludes alive).2.1, setUp⟩
      · exact Or.inl (congrArg Thread.point (points other target))
  · rw [active]
    by_cases target : other = thread
    · subst target
      have saved := valid.contexts other
      rw [alive] at saved
      rw [moved, setUp, context]
      exact saved
    · rw [points other target]
      exact valid.contexts other
  · have target : other = thread := Option.some.inj ((active ▸ runs).symm.trans running)
    subst target
    rw [moved] at masked ⊢
    obtain masked | ended := masks masked
    · exact (valid.pending other running masked differs).imp pending ends
    · exact Or.inr ended

/-- The active thread changes, and moves references between its frames and the queues. -/
theorem become (valid : Valid before) (opened : ∀ mutex, (after.mutexes mutex).enabled = true)
    (running : before.activeThread = some thread) (value : Thread)
    (fine : Fine { before.view thread with thread := value })
    (setUp : value.point.setUp = true) (starts : value.point.starts = false)
    (late : value.point.late = true → (before.threads thread).point.late = true)
    (ends : (before.threads thread).point.ends = true → value.point.ends = true)
    (context : value.stashedContext = (before.threads thread).stashedContext)
    (masks : value.maskedFromScheduler = true →
      (before.threads thread).maskedFromScheduler = true ∨ value.point.ends = true)
    (threads : after.threads = Function.update before.threads thread value)
    (balance : ∀ kind other, after.outside kind other + value.holds.count (kind, other) =
      before.outside kind other + (before.threads thread).holds.count (kind, other))
    (rest : ∀ other, after.view other =
      { before.view other with thread := after.threads other, tally := fun kind => after.tally kind other })
    (same : after.next = before.next ∧ after.systemHandler = before.systemHandler ∧
      after.activeThread = before.activeThread)
    (pending : before.pendSV = true → after.pendSV = true) : Valid after :=
  valid.follow opened running value
    (State.own_step valid.sound (State.active_born valid.sound running) threads same.1 balance rest fine)
    setUp starts late ends context masks threads same pending

/-- The active thread goes on to another point outside of all critical sections. -/
theorem move (valid : Valid before) (opened : ∀ mutex, (after.mutexes mutex).enabled = true)
    (running : before.activeThread = some thread) (point : ProgramPoint)
    (unlocked : (before.threads thread).locks = [])
    (acquiring : (before.threads thread).acquiring = none)
    (childless : (before.threads thread).child = .none)
    (leads : (before.threads thread).point.Leads point)
    (threads : after.threads = (before.setPoint thread point).threads)
    (balance : ∀ kind other, after.outside kind other + point.holds.count (kind, other) =
      before.outside kind other + (before.threads thread).point.holds.count (kind, other))
    (rest : ∀ other, after.view other =
      { before.view other with thread := after.threads other, tally := fun kind => after.tally kind other })
    (same : after.next = before.next ∧ after.systemHandler = before.systemHandler ∧
      after.activeThread = before.activeThread)
    (pending : before.pendSV = true → after.pendSV = true) : Valid after := by
  obtain ⟨fits, setUp, starts, ends, late⟩ := leads
  refine valid.become opened running { before.threads thread with point } ?_ setUp starts late
    ends.ge rfl Or.inl threads
    (fun kind other => ?_) rest same pending
  · exact (valid.sound thread).advance (by simp [State.view, running]) (fits _ (valid.sound thread).fits) setUp ends
      unlocked acquiring fun child => absurd childless child
  · rw [Thread.count_holds, Thread.count_holds, ← Nat.add_assoc, ← Nat.add_assoc, balance]

/-- A step that does not touch the queues. -/
theorem go (valid : Valid before) (running : before.activeThread = some thread)
    (unlocked : (before.threads thread).locks = [])
    (acquiring : (before.threads thread).acquiring = none)
    {old : ProgramPoint} (reached : (before.threads thread).point = old)
    (childless : (before.threads thread).child = .none)
    (point : ProgramPoint) (elsewhere : old ≠ .dummyStart) (leads : old.Leads point)
    (holds : point.holds = old.holds) :
    Valid (before.setPoint thread point) := by
  subst reached
  exact valid.move (valid.opened running elsewhere) running point unlocked acquiring childless leads rfl
    (fun _ _ => by rw [holds]; rfl) (fun _ => rfl) ⟨rfl, rfl, rfl⟩ id

theorem pend (valid : Valid before) (opened : ∀ mutex, (before.mutexes mutex).enabled = true) :
    Valid { before with pendSV := true } :=
  ⟨valid.sound, ⟨valid.order.born, valid.order.handler, valid.order.starting, valid.order.begin,
    valid.order.fresh,
    valid.order.late⟩, valid.contexts, valid.active, fun _ _ _ _ => Or.inl rfl, Or.inl opened⟩

theorem trigger (valid : Valid before) (opened : ∀ mutex, (before.mutexes mutex).enabled = true) :
    Yields (KernelFault.possible · = true) before.trigger Valid :=
  State.trigger_yields.mono fun _ same => same ▸ valid.pend opened

end Valid
end PicoOs.Kernel
