import PicoOs.Proofs.SwitchFrames

/-! Reference counts: the count of a thread is the number of `RefPtr`s to it, and a
thread on its way to the default thread is referenced from nowhere else. -/

namespace PicoOs.Kernel
open Library

private theorem count_flatMap_range (next : Nat) (lists : Nat → List ThreadId) (thread : ThreadId) :
    ((List.range next).flatMap lists).count thread = ∑ other ∈ Finset.range next,
    (lists other).count thread := by
  induction next with
  | zero => rfl
  | succ next ih =>
    rw [List.range_succ, List.flatMap_append, List.count_append, ih, Finset.sum_range_succ]
    simp

private theorem count_references (value : Thread) (thread : ThreadId) :
    value.references.count thread = value.holds.count (.ready, thread) +
      value.holds.count (.parked, thread) +
      value.holds.count (.doomed, thread) + value.holds.count (.nascent, thread) := by
  have split : ∀ holds : List (Hold × ThreadId), (holds.map Prod.snd).count thread =
      holds.count (.ready, thread) + holds.count (.parked, thread) + holds.count (.doomed, thread) +
        holds.count (.nascent, thread) := by
    intro holds
    induction holds with
    | nil => rfl
    | cons hold holds ih =>
      obtain ⟨kind, other⟩ := hold
      simp only [List.map_cons, List.count_cons, ih, beq_iff_eq, Prod.mk.injEq]
      cases kind <;> simp <;> omega
  rw [← Thread.holds_references, split]

namespace State
variable {state : State}

private theorem count_frames (thread : ThreadId) :
    ((List.range state.next).flatMap fun other => (state.threads other).references).count thread =
      held state.threads state.next .ready thread + held state.threads state.next .parked thread +
        held state.threads state.next .doomed thread +
          held state.threads state.next .nascent thread := by
  rw [count_flatMap_range]
  simp only [count_references, Finset.sum_add_distrib, held]

/-- The static references: those of the default, the fallback and the dummy thread, and that of the
SystemHandler. -/
theorem count_static (order : Order state) (thread : ThreadId) :
    [defaultThread, fallbackThread, dummyThread].count thread +
      state.systemHandler.toList.count thread =
      (state.view thread).static := by
  have apart : ∀ fixed < 4, state.systemHandler ≠ some fixed := by
    intro fixed small serves
    exact absurd small (Nat.not_lt.mpr (order.handler fixed serves).1)
  have served : state.systemHandler.toList.count thread = if state.systemHandler = some thread then
    1 else 0 := by
    cases state.systemHandler <;> simp [List.count_singleton]
  rw [served, View.static, view, role]
  by_cases default : thread = defaultThread
  · subst default
    rw [if_neg (apart defaultThread (by decide))]
    rfl
  by_cases fallback : thread = fallbackThread
  · subst fallback
    rw [if_neg (apart fallbackThread (by decide))]
    rfl
  by_cases dummy : thread = dummyThread
  · subst dummy
    rw [if_neg (apart dummyThread (by decide))]
    rfl
  have absent : [defaultThread, fallbackThread, dummyThread].count thread = 0 := by
    apply List.count_eq_zero.mpr
    simp [default, fallback, dummy]
  rw [absent, if_neg default, if_neg fallback, if_neg dummy]
  by_cases serves : state.systemHandler = some thread
  · rw [if_pos serves, if_pos serves]
    rfl
  · rw [if_neg serves, if_neg serves]
    rfl

private theorem slots_count (order : Order state) (thread : ThreadId) : state.slots.count thread =
    (state.view thread).places + (state.view thread).static + (state.view thread).locked := by
  have frames := @count_frames state thread
  have static := count_static order thread
  simp only [slots, List.count_append, KernelMutex.slots, frames, View.places, View.ready,
    View.locked, view, tally, outside] at static ⊢
  omega

end State

/-- The assertions on reference counts, and deleting a thread where that is not meant to happen. -/
def KernelFault.counts : KernelFault → Bool
  | deadReference | lastReference | defaultRefcount | danglingRefcount => true
  | _ => false

/-- The thread is in the dangling queue, or the default thread has taken it from there to destroy
it. -/
def State.discarded (state : State) (thread : ThreadId) : Prop :=
  thread ∈ state.danglingThreads ∨ (state.threads defaultThread).point = .defaultRelease thread

private theorem Valid.discarded {state : State} (valid : Valid state) {thread : ThreadId}
    (ended : state.discarded thread) :
    (state.threads thread).refcount = 1 := by
  have doomed : 1 ≤ (state.view thread).tally .doomed := by
    obtain dangling | released := ended
    · exact (List.one_le_count_iff.mpr dangling).trans (Nat.le_add_right ..)
    · have born : defaultThread < state.next :=
        State.born_of_point valid.sound (by rw [released]; nofun)
      exact State.counted born (List.mem_append_left _ (by rw [released]; exact List.mem_singleton_self _))
  exact ((valid.sound thread).doomed doomed).2

def SystemEvent.handlerMode : SystemEvent → Bool
  | tick | pendSV | thread _ .svc => true
  | _ => false

private theorem handlerMode_points {before after : State} {event : SystemEvent}
    (handler : event.handlerMode = true)
    (executed : before.execute event = .ok after) (thread : ThreadId) :
    (after.threads thread).point = (before.threads thread).point := by
  cases event with
  | tick =>
    obtain rfl := Except.ok.inj executed
    unfold State.isrSystick
    split <;> rfl
  | pendSV => exact (Switches.schedulerNext.value executed).point thread
  | thread active step =>
    cases step with
    | svc => exact (Switches.syscall.value executed).point thread
    | _ => cases handler

theorem reference_counts {stack : ThreadId → PageRange} {context : ThreadId → FullRegisterContext}
    {state : State}
    (reachable : State.machine.Reachable (State.boot stack context) state) :
    (∀ thread, (state.threads thread).refcount = state.slots.count thread) ∧
      (∀ thread, state.discarded thread → (state.threads thread).refcount = 1 ∧
        state.slots.count thread = 1) ∧
      (∀ event after, event.handlerMode = true → state.permitted event →
        state.execute event = .ok after →
        ∀ thread, 1 ≤ (state.threads thread).refcount → 1 ≤ (after.threads thread).refcount) ∧
      ∀ event fault, state.permitted event → state.execute event = .error fault →
      fault.counts = false := by
  obtain ⟨valid, faults⟩ := reachable_valid reachable
  have counted : ∀ thread, (state.threads thread).refcount = state.slots.count thread :=
    fun thread =>
    (valid.sound thread).exact.trans (State.slots_count valid.order thread).symm
  refine ⟨counted, fun thread ended => ?_,
    fun event after handler permitted executed thread alive => ?_,
    fun event fault permitted failed => ?_⟩
  · have single := valid.discarded ended
    exact ⟨single, (counted thread).symm.trans single⟩
  · have kept := (valid.execute permitted).value executed
    have present : (state.threads thread).point.gone = false := by
      apply Bool.eq_false_iff.mpr
      intro ended
      have none : (state.threads thread).refcount = 0 := (valid.sound thread).gone ended
      omega
    rw [← handlerMode_points handler executed thread] at present
    exact (kept.sound thread).alive present
  · have possible := faults event fault permitted failed
    cases fault <;> first | rfl | cases possible

theorem reference_counts_startup :
    ∃ state, State.machine.after .bootPlain SystemEvent.startup = some state ∧
    state.danglingThreads = [startupThread] ∧ (state.threads startupThread).refcount = 1 ∧
      state.slots.count startupThread = 1 := by
  have played : (State.machine.after .bootPlain SystemEvent.startup).map State.danglingThreads =
    some [startupThread] := by
    decide +kernel
  obtain ⟨state, executed, dangling⟩ := Option.map_eq_some_iff.mp played
  have discarded : state.discarded startupThread :=
    Or.inl (by rw [dangling]; exact List.mem_singleton_self _)
  obtain ⟨_, single, _⟩ := reference_counts (Machine.reachable_after executed)
  exact ⟨state, executed, dangling, single startupThread discarded⟩

end PicoOs.Kernel
