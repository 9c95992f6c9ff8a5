import PicoOs.Proofs.MutexSteps

/-! What the scheduler makes of a state, and that it keeps every view fine. -/

namespace PicoOs.Kernel
open Library

/-- A thread's context is saved exactly when the thread is set up and does not run. -/
def Contexts (state : State) (running : Option ThreadId) : Prop :=
  ∀ thread, (state.threads thread).stashedContext.isSome = true ↔
    (state.threads thread).point.setUp = true ∧ running ≠ some thread

theorem Quiet.saved {before after : State} {running : Option ThreadId} (quiet : Quiet before after)
    (contexts : Contexts before running) : Contexts after running := by
  intro thread
  rw [quiet.contexts, quiet.points]
  exact contexts thread

namespace State
variable {state : State} {thread : ThreadId}

def left (state : State) (active : ThreadId) : State :=
  { state.modify active fun value => { value with refcount := value.refcount - 1 } with activeThread := none }

def saved (state : State) (active : ThreadId) : State :=
  if (state.threads active).maskedFromScheduler then
    if 2 ≤ (state.threads active).refcount then state.left active
    else { state with danglingThreads := state.danglingThreads ++ [active], activeThread := none }
  else if (state.threads active).isDefaultThread then state.left active
  else { state with queuedThreads := state.queuedThreads ++ [active], activeThread := none }

theorem clearActive_eq (shared : 2 ≤ (state.threads thread).refcount) :
    state.clearActive thread = .ok (state.left thread) := by
  unfold clearActive
  rw [unref_eq shared]
  rfl

theorem default_twice (sound : state.Sound) (active : state.activeThread = some thread)
    (flag : (state.threads thread).isDefaultThread = true) :
    2 ≤ (state.threads thread).refcount := by
  have exact : (state.threads thread).refcount = _ := (sound thread).exact
  have running : (state.view thread).running = 1 := by simp [view, active]
  have role := (sound thread).flag.mp flag
  simp only [View.places, View.static] at exact
  grind

/-- The queue into which `schedule` would put the active thread is full. -/
def fills (state : State) (active : ThreadId) : Prop :=
  ((state.threads active).maskedFromScheduler = true ∧ (state.threads active).refcount < 2 ∧
      16 ≤ state.danglingThreads.length) ∨
    ((state.threads active).maskedFromScheduler = false ∧
      (state.threads active).isDefaultThread = false ∧
      16 ≤ state.queuedThreads.length)

theorem saveActive_full (active : state.activeThread = some thread) (full : state.fills thread) :
    state.saveActive = .error .queueFull := by
  unfold saveActive enqueue
  rw [active]
  dsimp only
  obtain ⟨masked, single, full⟩ | ⟨unmasked, ordinary, full⟩ := full
  · rw [if_pos masked, if_neg (Nat.not_le.mpr single), if_neg (Nat.not_lt.mpr full)]
    rfl
  · rw [if_neg (by simp [unmasked]), if_neg (by simp [ordinary]), if_neg (Nat.not_lt.mpr full)]
    rfl

theorem saveActive_eq (sound : state.Sound) (active : state.activeThread = some thread)
    (room : ¬state.fills thread) :
    state.saveActive = .ok (state.saved thread) := by
  unfold saveActive saved
  rw [active]
  dsimp only
  by_cases masked : (state.threads thread).maskedFromScheduler = true
  · by_cases shared : 2 ≤ (state.threads thread).refcount
    · rw [if_pos masked, if_pos masked, if_pos shared, if_pos shared, clearActive_eq shared]
    · have room : state.danglingThreads.length < 16 :=
        Nat.lt_of_not_le fun full => room (Or.inl ⟨masked, Nat.lt_of_not_le shared, full⟩)
      unfold enqueue
      rw [if_pos masked, if_pos masked, if_neg shared, if_neg shared, if_pos room]
      rfl
  · by_cases flag : (state.threads thread).isDefaultThread = true
    · have shared := default_twice sound active flag
      rw [if_neg masked, if_neg masked, if_pos flag, if_pos flag, if_pos shared,
        clearActive_eq shared]
    · have room : state.queuedThreads.length < 16 :=
        Nat.lt_of_not_le fun full =>
          room (Or.inr ⟨eq_false_of_ne_true masked, eq_false_of_ne_true flag, full⟩)
      unfold enqueue
      rw [if_neg masked, if_neg masked, if_neg flag, if_neg flag, if_pos room]
      rfl

theorem saveActive_yields (sound : state.Sound) (active : state.activeThread = some thread) :
    Yields (· = .queueFull) state.saveActive (· = state.saved thread) := by
  by_cases full : state.fills thread
  · rw [saveActive_full active full]
    exact Yields.error rfl
  · rw [saveActive_eq sound active full]
    exact Yields.ok rfl

private theorem left_sound (sound : state.Sound) (active : state.activeThread = some thread)
    (rests : (state.threads thread).maskedFromScheduler = true ∨
      (state.threads thread).isDefaultThread = true)
    (shared : 2 ≤ (state.threads thread).refcount) : (state.left thread).Sound := by
  intro other
  have tally := congrArg View.tally (@view_modify state thread
    (fun value => { value with refcount := value.refcount - 1 }) rfl other)
  by_cases same : other = thread
  · subst same
    have leaves := (sound other).leave (by simp [view, active]) (rests.imp id (sound other).flag.mp) shared
    convert leaves using 1
    exact View.ext (Function.update_self ..) rfl rfl rfl rfl tally rfl rfl
  · convert sound other using 1
    exact View.ext (Function.update_of_ne same ..) rfl rfl
      (by simp [view, left, active, Ne.symm same]) rfl tally rfl rfl

theorem saved_sound (sound : state.Sound) (active : state.activeThread = some thread) :
    (state.saved thread).Sound := by
  have running : (state.view thread).running = 1 := by simp [view, active]
  have stopped : ∀ other, other ≠ thread → (state.view other).running = 0 := by
    intro other differs
    simp [view, active, Ne.symm differs]
  unfold saved
  split
  next masked =>
    split
    next shared => exact left_sound sound active (Or.inl masked) shared
    next single =>
      intro other
      by_cases same : other = thread
      · subst same
        have alive := active_alive sound active
        convert (sound other).doom running masked (show (state.threads other).refcount = 1 by omega) using 1
        refine View.ext rfl rfl rfl rfl rfl ?_ rfl rfl
        funext kind
        cases kind <;> simp [view, tally, outside]
        omega
      · convert sound other using 1
        refine View.ext rfl rfl rfl (stopped other same).symm rfl ?_ rfl rfl
        funext kind
        cases kind <;> simp [view, tally, outside, Ne.symm same]
  next unmasked =>
    split
    next flag => exact left_sound sound active (Or.inr flag) (default_twice sound active flag)
    next ordinary =>
      intro other
      by_cases same : other = thread
      · subst same
        have role := mt (sound other).flag.mpr ordinary
        convert (sound other).requeue running (by simpa using unmasked) (fun is => role (Or.inl is))
          (fun is => role (Or.inr is)) using 1
        exact View.ext rfl rfl rfl rfl (by simp [view]) rfl rfl rfl
      · convert sound other using 1
        exact View.ext rfl rfl rfl (stopped other same).symm
          (by simp [view, Ne.symm same]) rfl rfl rfl

def idleThread (state : State) : ThreadId :=
  if (state.threads defaultThread).maskedFromScheduler then fallbackThread else defaultThread

def idled (state : State) : State :=
  { state.modify state.idleThread fun value => { value with refcount := value.refcount + 1 } with
    activeThread := some state.idleThread }

private theorem idleThread_role (state : State) :
    state.role state.idleThread = .default ∨ state.role state.idleThread = .fallback := by
  unfold idleThread role
  split
  · exact Or.inr rfl
  · exact Or.inl rfl

private theorem idled_sound (sound : state.Sound) (stopped : state.activeThread = none) :
    state.idled.Sound := by
  intro other
  have halted : (state.view other).running = 0 := by simp [view, stopped]
  have tally := congrArg View.tally (@view_modify state state.idleThread
    (fun value => { value with refcount := value.refcount + 1 }) rfl other)
  by_cases same : other = state.idleThread
  · subst same
    convert (sound _).idle halted state.idleThread_role using 1
    exact View.ext (Function.update_self ..) rfl rfl (by simp [view, idled]) rfl tally rfl rfl
  · convert sound other using 1
    exact View.ext (Function.update_of_ne same ..) rfl rfl
      (by simp [view, idled, stopped, Ne.symm same]) rfl tally rfl rfl

private theorem dispatched_sound (sound : state.Sound) (stopped : state.activeThread = none)
    {rest : List ThreadId}
    (queue : state.queuedThreads = thread :: rest) :
    ({ state with queuedThreads := rest, activeThread := some thread } : State).Sound := by
  intro other
  have halted : (state.view other).running = 0 := by simp [view, stopped]
  by_cases same : other = thread
  · subst same
    convert (sound other).dispatch halted (by simp [view, queue]) using 1
    exact View.ext rfl rfl rfl (by simp [view]) (by simp [view, queue]) rfl rfl rfl
  · convert sound other using 1
    exact View.ext rfl rfl rfl (by simp [view, stopped, Ne.symm same]) (by simp [view, queue, Ne.symm same]) rfl rfl rfl

private theorem chooseDefaultThread_yields {tolerated : KernelFault → Prop} (sound : state.Sound) :
    Yields tolerated state.chooseDefaultThread (· = state.idled) := by
  have awake : (state.threads fallbackThread).maskedFromScheduler = false :=
    (sound fallbackThread).fallback rfl
  have alive : ∀ thread, state.role thread ≠ .ordinary → 1 ≤ (state.threads thread).refcount := by
    intro thread role
    have exact : (state.threads thread).refcount = _ := (sound thread).exact
    have static : (state.view thread).static = 1 := if_neg role
    omega
  unfold chooseDefaultThread idled idleThread
  split
  next masked =>
    rw [if_neg (by simp [awake]), ref_eq (alive fallbackThread (by simp))]
    exact Yields.ok rfl
  next unmasked =>
    rw [ref_eq (alive defaultThread (by simp))]
    exact Yields.ok rfl

theorem chooseThread_yields {tolerated : KernelFault → Prop} (sound : state.Sound) :
    Yields tolerated state.chooseThread fun after =>
      ((state.danglingThreads ≠ [] ∨ state.queuedThreads = []) ∧ after = state.idled) ∨
      ∃ thread rest, state.danglingThreads = [] ∧ state.queuedThreads = thread :: rest ∧
        after = { state with queuedThreads := rest, activeThread := some thread } := by
  unfold chooseThread
  split
  next dangling =>
    exact (chooseDefaultThread_yields sound).mono fun _ same =>
      Or.inl ⟨Or.inl (List.ne_nil_of_length_pos dangling), same⟩
  next settled =>
    have none : state.danglingThreads = [] := List.length_eq_zero_iff.mp (by omega)
    cases queue : state.queuedThreads with
    | nil => exact (chooseDefaultThread_yields sound).mono fun _ same => Or.inl ⟨Or.inr rfl, same⟩
    | cons thread rest => exact Yields.ok (Or.inr ⟨thread, rest, none, rfl, rfl⟩)

private theorem left_quiet (active : ThreadId) : Quiet state (state.left active) :=
  .update _ _ rfl rfl rfl rfl rfl fun _ => rfl

theorem saved_quiet (active : ThreadId) : Quiet state (state.saved active) := by
  unfold saved
  split
  · split
    · exact left_quiet active
    · exact ⟨fun _ => rfl, fun _ => rfl, rfl, rfl, fun _ => rfl⟩
  · split
    · exact left_quiet active
    · exact ⟨fun _ => rfl, fun _ => rfl, rfl, rfl, fun _ => rfl⟩

private theorem idled_quiet : Quiet state state.idled :=
  .update _ _ rfl rfl rfl rfl rfl fun _ => rfl

structure Scheduled (before after : State) (chosen : ThreadId) : Prop where
  sound : after.Sound
  quiet : Quiet before after
  active : after.activeThread = some chosen
  awake : chosen ≠ defaultThread → (after.threads chosen).maskedFromScheduler = false

theorem choose_yields {tolerated : KernelFault → Prop} (sound : state.Sound)
    (stopped : state.activeThread = none) :
    Yields tolerated state.chooseThread fun after => ∃ chosen, Scheduled state after chosen := by
  refine (chooseThread_yields sound).mono fun after choice => ?_
  obtain ⟨-, rfl⟩ | ⟨thread, rest, -, queue, rfl⟩ := choice
  · refine ⟨_, idled_sound sound stopped, idled_quiet, rfl, fun other => ?_⟩
    have fallback : state.idleThread = fallbackThread := by
      unfold idleThread at other ⊢
      split
      · rfl
      · rename_i unmasked
        rw [if_neg unmasked] at other
        exact absurd rfl other
    rw [fallback]
    exact (idled_sound sound stopped fallbackThread).fallback rfl
  · refine ⟨thread, dispatched_sound sound stopped queue,
      ⟨fun _ => rfl, fun _ => rfl, rfl, rfl, fun _ => rfl⟩, rfl,
      fun other => ?_⟩
    have queued : 1 ≤ (state.view thread).ready := by simp [View.ready, view, queue]; omega
    exact ((sound thread).ready queued).2 fun role => other (default_of_role role)

end State
end PicoOs.Kernel
