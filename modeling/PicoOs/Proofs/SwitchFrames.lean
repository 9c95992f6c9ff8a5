import PicoOs.Proofs.ThreadRuns

/-! What the interrupt handlers leave alone: a switch and a supervisor call move threads
between the queues, but no thread goes on in its code and no mutex changes hands. -/

namespace PicoOs.Kernel
open Library

/-- What only the thread itself, and the default thread that destroys it, change. -/
def Thread.frame (thread : Thread) :
    ProgramPoint × Child × List MutexId × Option MutexId × List PageRange :=
  (thread.point, thread.child, thread.locks, thread.acquiring, thread.ownedPageRanges)

structure Switched (before after : State) : Prop where
  frames : ∀ thread, (after.threads thread).frame = (before.threads thread).frame
  mutexes : after.mutexes = before.mutexes
  next : after.next = before.next
  systemHandler : after.systemHandler = before.systemHandler
  enabled : after.enabled = before.enabled
  leaked : after.leaked = before.leaked

namespace Switched
variable {first middle last : State}

theorem refl : Switched first first := ⟨fun _ => rfl, rfl, rfl, rfl, rfl, rfl⟩

theorem trans (earlier : Switched first middle) (later : Switched middle last) :
    Switched first last where
  frames thread := (later.frames thread).trans (earlier.frames thread)
  mutexes := later.mutexes.trans earlier.mutexes
  next := later.next.trans earlier.next
  systemHandler := later.systemHandler.trans earlier.systemHandler
  enabled := later.enabled.trans earlier.enabled
  leaked := later.leaked.trans earlier.leaked

theorem point (switched : Switched first last) (thread : ThreadId) :
    (last.threads thread).point = (first.threads thread).point :=
  congrArg Prod.fst (switched.frames thread)

theorem modify {thread : ThreadId} {change : Thread → Thread}
    (same : (change (first.threads thread)).frame = (first.threads thread).frame) :
    Switched first (first.modify thread change) :=
  ⟨fun _ => update_field Thread.frame same, rfl, rfl, rfl, rfl, rfl⟩

end Switched

def Switches (state : State) (result : Except KernelFault State) : Prop :=
  Yields (fun _ => True) result (Switched state)

namespace Switches
variable {state : State} {thread : ThreadId}

theorem ok {after : State} (switched : Switched state after) : Switches state (.ok after) :=
  Yields.ok switched

theorem error {fault : KernelFault} : Switches state (.error fault) := Yields.error trivial

theorem bind {result : Except KernelFault State} {rest : State → Except KernelFault State}
    (first : Switches state result)
    (next : ∀ middle, Switches middle (rest middle)) : Switches state (result >>= rest) :=
  Yields.bind first fun middle earlier => (next middle).mono fun _ later => earlier.trans later

theorem ref : Switches state (state.ref thread) := by
  unfold State.ref
  split
  · exact ok (.modify rfl)
  · exact error

private theorem unref : Switches state (state.unref thread) := by
  unfold State.unref
  split
  · exact error
  · exact error
  · exact ok (.modify rfl)

private theorem addThread : Switches state (state.addThread thread) := by
  unfold State.addThread enqueue
  split
  · exact ok ⟨fun _ => rfl, rfl, rfl, rfl, rfl, rfl⟩
  · exact error

theorem clearActive : Switches state (state.clearActive thread) :=
  unref.bind fun _ => ok ⟨fun _ => rfl, rfl, rfl, rfl, rfl, rfl⟩

private theorem wakeup : Switches state (state.wakeup thread) := by
  unfold State.wakeup
  split
  · exact error
  · split
    · refine Yields.bind ref fun middle referenced => ?_
      have unmasked : Switched state (state.modify thread fun value => { value with maskedFromScheduler := false }) := .modify rfl
      exact Yields.mono addThread fun after added => (unmasked.trans referenced).trans added
    · exact ok .refl

theorem saveActive : Switches state state.saveActive := by
  unfold State.saveActive enqueue
  split
  · exact ok .refl
  · split
    · split
      · exact clearActive
      · split
        · exact ok ⟨fun _ => rfl, rfl, rfl, rfl, rfl, rfl⟩
        · exact error
    · split
      · split
        · exact clearActive
        · exact error
      · split
        · exact ok ⟨fun _ => rfl, rfl, rfl, rfl, rfl, rfl⟩
        · exact error

private theorem chooseDefaultThread : Switches state state.chooseDefaultThread := by
  unfold State.chooseDefaultThread
  split
  · split
    · exact error
    · exact ref.bind fun _ => ok ⟨fun _ => rfl, rfl, rfl, rfl, rfl, rfl⟩
  · exact ref.bind fun _ => ok ⟨fun _ => rfl, rfl, rfl, rfl, rfl, rfl⟩

private theorem chooseThread : Switches state state.chooseThread := by
  unfold State.chooseThread
  split
  · exact chooseDefaultThread
  · split
    · exact chooseDefaultThread
    · exact ok ⟨fun _ => rfl, rfl, rfl, rfl, rfl, rfl⟩

theorem stashContext : Switches state (state.stashContext thread) := by
  unfold State.stashContext
  split
  · exact error
  · exact ok (.modify rfl)

private theorem unstashContext : Switches state (state.unstashContext thread) := by
  unfold State.unstashContext
  split
  · exact error
  · rename_i registers _
    have emptied : Switched state (state.modify thread fun value => { value with stashedContext := none }) := .modify rfl
    exact ok ⟨emptied.frames, rfl, rfl, rfl, rfl, rfl⟩

theorem switch : Switches state state.switch := by
  refine chooseThread.bind fun middle => ?_
  split
  · exact error
  · rename_i chosen _
    exact Yields.mono unstashContext fun after later =>
      ⟨later.frames, later.mutexes, later.next, later.systemHandler, later.enabled, later.leaked⟩

private theorem notifyWorkerThread : Switches state (state.notifyWorkerThread thread) := by
  unfold State.notifyWorkerThread enqueue
  have masked : Switched state (state.modify thread fun value => { value with maskedFromScheduler := true }) := .modify rfl
  dsimp only
  split
  · refine Yields.bind (Yields.ok rfl) fun waitingThreads same => ?_
    split
    · exact error
    · exact Yields.mono wakeup fun after later => masked.trans
        ⟨later.frames, later.mutexes, later.next, later.systemHandler, later.enabled, later.leaked⟩
  · exact error

theorem schedulerNext : Switches state state.schedulerNext := by
  unfold State.schedulerNext
  split
  · exact error
  · rename_i active _
    refine stashContext.bind fun middle => ?_
    rw [State.schedule_switch]
    exact saveActive.bind fun _ => switch

private theorem suspendCaller : Switches state (state.suspendCaller thread) :=
  ref.bind fun _ => stashContext.bind fun _ => clearActive.bind fun _ => notifyWorkerThread

theorem syscall : Switches state state.syscall := by
  cases running : state.activeThread with
  | none =>
    unfold State.syscall
    rw [running]
    exact error
  | some active =>
    rw [State.syscall_switch running]
    exact suspendCaller.bind fun _ => saveActive.bind fun _ => switch

end Switches
def SystemEvent.schedules : SystemEvent → Bool
  | pendSV | thread _ .svc => true
  | _ => false

namespace State
variable {state entry : State}

def scheduling (state : State) : SystemEvent → Except KernelFault State
  | .pendSV =>
    match state.activeThread with
    | none => .error .noActiveThread
    | some active => ({ state with pendSV := false } : State).stashContext active
  | .thread thread .svc => state.suspendCaller thread
  | _ => .error .notReached

theorem execute_scheduling {event : SystemEvent} (permitted : state.permitted event)
    (schedules : event.schedules = true)
    (active : state.activeThread ≠ none) : state.execute event = (do
      let entry ← state.scheduling event
      let (next, after) ← entry.schedule
      after.unstashContext next) := by
  cases event with
  | tick => cases schedules
  | pendSV =>
    obtain ⟨thread, running⟩ := Option.ne_none_iff_exists'.mp active
    change ({ state with pendSV := false } : State).schedulerNext = _
    simp only [scheduling, schedulerNext, running]
  | thread thread step =>
    cases step with
    | svc =>
      change state.syscall = _
      rw [syscall_switch permitted.2.1]
      simp only [schedule_switch]
      rfl
    | _ => cases schedules

def dooms (entry : State) : Prop :=
  ∃ active, entry.activeThread = some active ∧ (entry.threads active).maskedFromScheduler = true ∧
    (entry.threads active).refcount < 2

def putAway (entry : State) : State :=
  match entry.activeThread with
  | none => entry
  | some active => entry.saved active

theorem putAway_yields (sound : entry.Sound) :
    Yields (· = .queueFull) entry.saveActive (· = entry.putAway) := by
  cases running : entry.activeThread with
  | none =>
    unfold saveActive putAway
    rw [running]
    exact Yields.ok rfl
  | some active =>
    unfold putAway
    rw [running]
    exact saveActive_yields sound running

theorem putAway_sound (sound : entry.Sound) : entry.putAway.Sound := by
  unfold putAway
  split
  · exact sound
  · exact saved_sound sound ‹_›

theorem putAway_queued (entry : State) :
    ∃ rest, entry.putAway.queuedThreads = entry.queuedThreads ++ rest := by
  unfold putAway saved
  split
  · exact ⟨[], (List.append_nil _).symm⟩
  · split
    · split
      · exact ⟨[], (List.append_nil _).symm⟩
      · exact ⟨[], (List.append_nil _).symm⟩
    · split
      · exact ⟨[], (List.append_nil _).symm⟩
      · exact ⟨_, rfl⟩

theorem putAway_member {thread : ThreadId} (queued : thread ∈ entry.putAway.queuedThreads) :
    thread ∈ entry.queuedThreads ∨ entry.activeThread = some thread ∧
    (entry.threads thread).isDefaultThread = false := by
  unfold putAway saved at queued
  split at queued
  · exact Or.inl queued
  · rename_i active running
    split at queued
    · split at queued
      · exact Or.inl queued
      · exact Or.inl queued
    · split at queued
      · exact Or.inl queued
      · rename_i ordinary
        obtain queued | last := List.mem_append.mp queued
        · exact Or.inl queued
        · obtain rfl := List.mem_singleton.mp last
          exact Or.inr ⟨running, by simpa using ordinary⟩

theorem putAway_masked (entry : State) (thread : ThreadId) :
    (entry.putAway.threads thread).maskedFromScheduler =
      (entry.threads thread).maskedFromScheduler := by
  unfold putAway saved
  split
  · rfl
  · split
    · split
      · exact update_field Thread.maskedFromScheduler rfl
      · rfl
    · split
      · exact update_field Thread.maskedFromScheduler rfl
      · rfl

theorem putAway_dangling (entry : State) :
    entry.putAway.danglingThreads = [] ↔ entry.danglingThreads = [] ∧ ¬entry.dooms := by
  unfold putAway saved dooms
  cases running : entry.activeThread with
  | none => simp
  | some active =>
    by_cases masked : (entry.threads active).maskedFromScheduler = true
    · by_cases shared : 2 ≤ (entry.threads active).refcount
      · have several : 1 < (entry.threads active).refcount := shared
        simp [masked, shared, several, left, modify]
      · have single : (entry.threads active).refcount ≤ 1 := Nat.le_of_not_lt shared
        simp [masked, shared, single]
    · by_cases default : (entry.threads active).isDefaultThread = true
      · simp [masked, default, left, modify]
      · simp [masked, default]

theorem schedule_yields (sound : entry.Sound) :
    Yields (· = .queueFull) entry.schedule fun (next, _) =>
      ((entry.putAway.danglingThreads ≠ [] ∨ entry.putAway.queuedThreads = []) ∧
        next = entry.putAway.idleThread) ∨
      (entry.putAway.danglingThreads = [] ∧ entry.putAway.queuedThreads.head? = some next) := by
  unfold schedule
  refine (putAway_yields sound).bind fun _ same => ?_
  subst same
  refine (chooseThread_yields (putAway_sound sound)).bind fun after choice => ?_
  obtain ⟨idle, rfl⟩ | ⟨thread, rest, settled, queue, rfl⟩ := choice
  · exact Yields.ok (Or.inl ⟨idle, rfl⟩)
  · exact Yields.ok (Or.inr ⟨settled, by rw [queue]; rfl⟩)

theorem unstash_yields (thread : ThreadId) {middle : State} : Yields (fun _ => True)
    (unstashContext { middle with control := if (middle.threads thread).privileged then 0b10 else 0b11 } thread)
    fun after => ∃ registers, after = middle.resumed thread registers := by
  unfold unstashContext
  split
  · exact Yields.error trivial
  · exact Yields.ok ⟨_, rfl⟩

end State

/-- How the state in which `schedule` is called comes about. -/
inductive Entered (state entry : State) : SystemEvent → Prop where
  | pendSV (active : ThreadId) (running : state.activeThread = some active)
      (same : entry = ({ state with pendSV := false } : State).stashed active) :
        Entered state entry .pendSV
  | svc (thread handler : ThreadId) (running : state.activeThread = some thread)
      (suspended : State.Suspended state entry thread handler) :
        Entered state entry (.thread thread .svc)

theorem Valid.entered {state entry : State} (valid : Valid state) {event : SystemEvent}
    (permitted : state.permitted event) (entered : state.scheduling event = .ok entry) :
    Entered state entry event := by
  cases event with
  | tick => cases entered
  | pendSV =>
    obtain ⟨active, running⟩ := Option.ne_none_iff_exists'.mp valid.active
    have contexts := valid.contexts
    rw [running] at contexts
    have empty := State.running_empty contexts
    have stashed := @State.stashContext_eq { state with pendSV := false } active empty
    unfold State.scheduling at entered
    simp only [running] at entered
    rw [← running] at entered
    exact .pendSV active running (Except.ok.inj (stashed.symm.trans entered)).symm
  | thread thread step =>
    cases step with
    | svc =>
      have ⟨_, running, _, _, user⟩ := permitted
      have contexts := valid.contexts
      rw [running] at contexts
      have opened := valid.opened running (by rw [show (state.threads thread).point = .userMode from user]; nofun)
      obtain ⟨handler, suspended⟩ :=
        (State.suspendCaller_yields valid.sound valid.order contexts opened running user).value entered
      exact .svc thread handler running suspended
    | _ => cases entered

theorem Valid.scheduling_sound {state entry : State} (valid : Valid state) {event : SystemEvent}
    (permitted : state.permitted event) (entered : state.scheduling event = .ok entry) :
    entry.Sound := by
  obtain ⟨active, running, rfl⟩ | ⟨thread, handler, running, suspended⟩ :=
    valid.entered permitted entered
  · have sound : ({ state with pendSV := false } : State).Sound := valid.sound
    exact State.stashed_sound sound
  · exact suspended.sound

/-- What `schedule` and the restored context make of the state. -/
inductive Dispatched (entry after : State) : Prop where
  | idle (registers : FullRegisterContext) (rests : entry.putAway.danglingThreads ≠ [] ∨
      entry.putAway.queuedThreads = [])
      (same : after = entry.putAway.idled.resumed entry.putAway.idleThread registers)
  | next (chosen : ThreadId) (rest : List ThreadId) (registers : FullRegisterContext)
      (settled : entry.putAway.danglingThreads = [])
        (queue : entry.putAway.queuedThreads = chosen :: rest)
      (same : after = ({ entry.putAway with queuedThreads := rest, activeThread := some chosen } : State).resumed chosen registers)

theorem Dispatched.queued {entry after : State} (dispatched : Dispatched entry after)
    {thread : ThreadId}
    (queued : thread ∈ after.queuedThreads) : thread ∈ entry.putAway.queuedThreads := by
  obtain ⟨registers, rests, rfl⟩ | ⟨chosen, rest, registers, settled, queue, rfl⟩ := dispatched
  · exact queued
  · rw [queue]
    exact List.mem_cons_of_mem _ queued

theorem Valid.dispatches {state after : State} (valid : Valid state) {event : SystemEvent}
    (permitted : state.permitted event)
    (schedules : event.schedules = true) (executed : state.execute event = .ok after) :
    ∃ entry, Entered state entry event ∧ entry.Sound ∧ Dispatched entry after := by
  rw [State.execute_scheduling permitted schedules valid.active] at executed
  cases entered : state.scheduling event with
  | error fault =>
    rw [entered] at executed
    cases executed
  | ok entry =>
    have sound := valid.scheduling_sound permitted entered
    refine ⟨entry, valid.entered permitted entered, sound, ?_⟩
    rw [entered] at executed
    change (do let (next, after) ← entry.schedule; after.unstashContext next) =
      .ok after at executed
    rw [State.schedule_switch] at executed
    have yields : Yields (fun _ => True) (do let state ← entry.saveActive; state.switch)
      (Dispatched entry) := by
      refine (State.putAway_yields sound).any.bind fun _ same => ?_
      subst same
      refine (State.chooseThread_yields (State.putAway_sound sound)).bind fun middle choice => ?_
      obtain ⟨rests, rfl⟩ | ⟨chosen, rest, settled, queue, rfl⟩ := choice
      · exact (State.unstash_yields _).mono fun after ⟨registers, same⟩ =>
          .idle registers rests same
      · exact (State.unstash_yields _).mono fun after ⟨registers, same⟩ =>
          .next chosen rest registers settled queue same
    exact yields.value executed

end PicoOs.Kernel
