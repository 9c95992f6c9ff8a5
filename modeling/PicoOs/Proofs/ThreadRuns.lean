import PicoOs.Proofs.SwitchSteps

/-! The invariant of the thread system holds in every run. -/

namespace PicoOs.Kernel
open Library

namespace State
variable {state : State} {thread : ThreadId} {mutex : MutexId}

private theorem acquired_quiet : Quiet state (state.acquired thread mutex) := by
  refine Quiet.trans ?_ (.setMutex rfl)
  exact .update _ _ rfl rfl rfl rfl rfl fun _ => rfl

private theorem blocked_quiet : Quiet state (state.blocked thread mutex) := by
  refine Quiet.trans ?_ (.setMutex rfl)
  exact .update _ _ rfl rfl rfl rfl rfl fun _ => rfl

private theorem pend_quiet {after : State} (quiet : Quiet state after) :
    Quiet state { after with pendSV := true } :=
  ⟨quiet.points, quiet.contexts, quiet.next, quiet.systemHandler, quiet.enabled⟩

theorem enter_quiet : Quiet state (state.enter thread mutex) :=
  .update _ _ rfl rfl rfl rfl rfl fun _ => rfl

theorem dropped_quiet : Quiet state (state.dropped thread mutex) :=
  .update _ _ rfl rfl rfl rfl rfl fun _ => rfl

theorem released_quiet : Quiet state (state.released mutex) := by
  unfold released
  split
  · exact ⟨fun _ => rfl, fun _ => rfl, rfl, rfl, fun _ => rfl⟩
  · refine Quiet.trans ?_ (.setMutex rfl)
    exact .update _ _ rfl rfl rfl rfl rfl fun _ => rfl

theorem inherited_quiet {next : ThreadId} {rest : List ThreadId} :
    Quiet state (state.inherited mutex next rest) := by
  refine Quiet.trans ?_ woken_quiet
  exact .setMutex rfl

theorem released_pendSV : (state.released mutex).pendSV = state.pendSV := by
  unfold released
  split <;> rfl

private theorem woken_pendSV : (state.woken thread).pendSV = state.pendSV := by
  unfold woken
  split <;> rfl

private theorem released_masked (other : ThreadId) :
    ((state.released mutex).threads other).maskedFromScheduler =
    (state.threads other).maskedFromScheduler := by
  unfold released
  split
  · rfl
  · exact update_field Thread.maskedFromScheduler rfl

theorem unlocked_masked (other : ThreadId) :
    (((state.dropped thread mutex).released mutex).threads other).maskedFromScheduler =
      (state.threads other).maskedFromScheduler := by
  have kept : ((state.dropped thread mutex).threads other).maskedFromScheduler =
      (state.threads other).maskedFromScheduler := update_field Thread.maskedFromScheduler rfl
  exact (released_masked other).trans kept

theorem woken_awake : ((state.woken thread).threads thread).maskedFromScheduler = false := by
  unfold woken
  split
  · simp
  · exact eq_false_of_ne_true ‹_›

private theorem woken_masked {other : ThreadId}
    (masked : ((state.woken thread).threads other).maskedFromScheduler = true) :
    (state.threads other).maskedFromScheduler = true := by
  unfold woken at masked
  split at masked
  · by_cases same : other = thread
    · subst same
      rw [modify_self] at masked
      cases masked
    · rwa [modify_of_ne _ same] at masked
  · exact masked

private theorem inherited_masked {next other : ThreadId} {rest : List ThreadId}
    (masked : ((state.inherited mutex next rest).threads other).maskedFromScheduler = true) :
    (state.threads other).maskedFromScheduler = true :=
  @woken_masked (state.setMutex mutex _) next other masked

end State

namespace Valid
variable {state : State} {thread : ThreadId}

/-- An allocating thread that runs outside of a pending switch is not masked. -/
theorem awake (valid : Valid state) (running : state.activeThread = some thread)
    (settled : state.pendSV = false)
    (allocates : (state.threads thread).point.allocates = true) (other : thread ≠ defaultThread) :
    (state.threads thread).maskedFromScheduler = false := by
  refine Bool.eq_false_iff.mpr fun masked => ?_
  have ended := (valid.pending thread running masked other).resolve_left (by rw [settled]; nofun)
  rw [(ProgramPoint.allocates_excludes allocates).2.1] at ended
  cases ended

theorem unmasked (valid : Valid state) (running : state.activeThread = some thread)
    (settled : state.pendSV = false)
    (allocates : (state.threads thread).point.allocates = true)
    (ordinary : state.role thread = .ordinary) :
    (state.threads thread).maskedFromScheduler = false := by
  apply valid.awake running settled allocates
  intro same
  rw [same] at ordinary
  cases ordinary

theorem allocating (allocates : (state.threads thread).point.allocates = true) :
    (state.threads thread).point ≠ .dummyStart := by
  intro start
  rw [start] at allocates
  cases allocates

private theorem lock (valid : Valid state) (running : state.activeThread = some thread)
    (settled : state.pendSV = false)
    (allocates : (state.threads thread).point.allocates = true)
    (acquiring : (state.threads thread).acquiring = none)
    (mutex : MutexId) : Yields (KernelFault.possible · = true) (state.lock thread mutex) Valid := by
  have opened := valid.opened running (allocating allocates)
  have unmasked := valid.unmasked running settled allocates
  refine (State.lock_yields mutex (State.active_alive valid.sound running)).mono
    fun after outcome => ?_
  obtain ⟨free, -, rfl⟩ | ⟨-, -, rfl⟩ | ⟨-, rfl⟩ := outcome
  · have sound := State.acquired_sound valid.sound mutex running free allocates acquiring unmasked
    exact valid.quiet opened sound State.acquired_quiet rfl
      (fun _ masked => Or.inr (masked.symm.trans (update_field Thread.maskedFromScheduler rfl)).symm) id
  · have sound := State.blocked_sound valid.sound mutex running allocates acquiring
    exact valid.quiet opened sound (State.pend_quiet State.blocked_quiet) rfl
      (fun _ _ => Or.inl rfl) fun _ => rfl
  · have sound := State.enter_sound valid.sound mutex running allocates (Or.inl acquiring) unmasked
    exact valid.quiet opened sound State.enter_quiet rfl
      (fun _ masked => Or.inr (masked.symm.trans (update_field Thread.maskedFromScheduler rfl)).symm) id

private theorem lockReturn (valid : Valid state) (running : state.activeThread = some thread)
    (settled : state.pendSV = false)
    {mutex : MutexId} (acquiring : (state.threads thread).acquiring = some mutex) :
    Valid (state.enter thread mutex) := by
  have allocates := (valid.sound thread).locks (Or.inr (by rw [State.view_thread, acquiring]; nofun))
  rw [State.view_thread] at allocates
  have sound := State.enter_sound valid.sound mutex running allocates (Or.inr acquiring)
    (valid.unmasked running settled allocates)
  exact valid.quiet (valid.opened running (allocating allocates)) sound State.enter_quiet rfl
    (fun _ masked => Or.inr (masked.symm.trans (update_field Thread.maskedFromScheduler rfl)).symm) id

private theorem unlock (valid : Valid state) (running : state.activeThread = some thread)
    {mutex : MutexId}
    (holds : mutex ∈ (state.threads thread).locks)
    (acquiring : (state.threads thread).acquiring = none) :
    Yields (KernelFault.possible · = true) (state.unlock thread mutex) Valid := by
  have allocates := (valid.sound thread).locks (Or.inl (List.ne_nil_of_mem holds))
  rw [State.view_thread] at allocates
  have opened := valid.opened running (allocating allocates)
  have released := State.released_sound valid.sound mutex acquiring
  have quiet : Quiet state ((state.dropped thread mutex).released mutex) :=
    State.dropped_quiet.trans State.released_quiet
  have active : ((state.dropped thread mutex).released mutex).activeThread = state.activeThread :=
    State.released_active mutex
  have pendSV : ((state.dropped thread mutex).released mutex).pendSV = state.pendSV :=
    State.released_pendSV
  have masks : ∀ other, (((state.dropped thread mutex).released mutex).threads other).maskedFromScheduler = true →
      (state.threads other).maskedFromScheduler = true :=
        fun other masked => (State.unlocked_masked other).symm.trans masked
  refine (State.unlock_yields valid.sound mutex acquiring).mono fun after outcome => ?_
  obtain ⟨disabled, -⟩ | ⟨-, -, rfl⟩ | ⟨next, rest, waiting, -, stopped, rfl⟩ := outcome
  · rw [opened mutex] at disabled
    cases disabled
  · exact valid.quiet opened released quiet active (fun other masked => Or.inr (masks other masked))
      (fun pending => pendSV.trans pending)
  · have mutexes : ((state.dropped thread mutex).released mutex).mutexes mutex =
        { state.mutexes mutex with holdingThread := none } := by
      rw [State.released_mutexes, Function.update_self]
      rfl
    have sound := State.inherited_sound released mutex
      (by rw [mutexes]) (by rw [mutexes]; exact waiting)
      (by rw [active]; exact stopped)
    exact valid.quiet opened sound (quiet.trans State.inherited_quiet)
      (State.woken_active.trans active)
      (fun other masked => Or.inr (masks other (State.inherited_masked masked)))
      (fun pending => State.woken_pendSV.trans (pendSV.trans pending))

private theorem compute (valid : Valid state) (registers : FullRegisterContext) :
    Valid { state with registers } := by
  refine ⟨valid.sound, valid.order.step (Nat.le_refl _) rfl (fun _ => Or.inl rfl) fun _ _ => Or.inl rfl, valid.contexts,
    valid.active, valid.pending, valid.gates.imp id fun booting => ?_⟩
  exact ⟨booting.active, booting.point, booting.disabled, booting.quiet, booting.free⟩

private theorem tick (valid : Valid state) : Valid state.isrSystick := by
  unfold State.isrSystick
  split
  · rename_i enabled
    obtain opened | booting := valid.gates
    · exact valid.pend opened
    · rw [booting.disabled] at enabled
      cases enabled
  · exact valid

theorem schedulerNext (valid : Valid state) (pending : state.pendSV = true) :
    Yields (· = .queueFull) ({ state with pendSV := false } : State).schedulerNext Valid := by
  obtain ⟨thread, running⟩ := Option.ne_none_iff_exists'.mp valid.active
  have contexts := valid.contexts
  rw [running] at contexts
  obtain opened | booting := valid.gates
  · refine State.schedulerNext_yields valid.sound ?_ contexts opened running
    exact valid.order.step (Nat.le_refl _) rfl (fun _ => Or.inl rfl) fun _ _ => Or.inl rfl
  · rw [booting.quiet] at pending
    cases pending

theorem svc (valid : Valid state) (running : state.activeThread = some thread)
    (user : (state.threads thread).point = .userMode) :
    Yields (· = .queueFull) state.syscall Valid := by
  have contexts := valid.contexts
  rw [running] at contexts
  exact State.syscall_yields valid.sound valid.order contexts
    (valid.opened running (by rw [user]; nofun)) running user

private theorem step (valid : Valid state) (settled : state.pendSV = false)
    (running : state.activeThread = some thread)
    (step : ThreadStep) (may : (state.threads thread).may step) :
    Yields (KernelFault.possible · = true) (state.step thread step) Valid := by
  cases step with
  | compute registers => exact Yields.ok (valid.compute registers)
  | lock mutex => exact valid.lock running settled may.1 may.2 mutex
  | lockReturn mutex => exact Yields.ok (valid.lockReturn running settled may)
  | unlock mutex => exact valid.unlock running may.1 may.2
  | enable => exact Yields.ok (valid.enable running may.1 may.2.1 may.2.2)
  | trigger => exact valid.triggers running may.1 may.2.1 may.2.2
  | pollDangling => exact valid.pollDangling running may.1 may.2.1 may.2.2
  | clearDangling victim => exact valid.clearDangling running may.1 may.2.1 may.2.2
  | finishDestroy => exact Yields.ok (valid.finishDestroy running may.1 may.2.1 may.2.2)
  | constructHandler => exact Yields.ok (valid.constructHandler running may.1 may.2.1 may.2.2)
  | setupHandler stack context =>
      exact valid.setupHandler running may.1 may.2.1 may.2.2 stack context
  | construct => exact Yields.ok (valid.construct running may.1 may.2.1 may.2.2.1 may.2.2.2)
  | setup child stack context =>
      exact valid.setup running may.1 may.2.1 may.2.2.1 may.2.2.2 stack context
  | enqueueChild child => exact valid.enqueueChild running may.1 may.2.1 may.2.2
  | finish => exact Yields.ok (valid.finish running may.1 may.2.1 may.2.2)
  | checkWaiting => exact valid.checkWaiting running may.1 may.2.1 may.2.2
  | takeWaiting => exact valid.takeWaiting running may.1 may.2.1 may.2.2
  | readContext caller => exact valid.readContext running may.1 may.2.1 may.2.2
  | finishCall caller value => exact valid.finishCall running may.1 may.2.1 may.2.2.1 may.2.2.2
  | storeReturn caller value shouldReturn => exact valid.storeReturn running may.1 may.2.1 may.2.2
  | finishExit caller => exact valid.finishExit running may.1 may.2.1 may.2.2
  | unmaskCaller caller => exact Yields.ok (valid.unmaskCaller running may.1 may.2.1 may.2.2)
  | requeueCaller caller => exact valid.requeueCaller running may.1 may.2.1 may.2.2
  | mask captured => exact Yields.ok (valid.mask running may.1 may.2.1 may.2.2)
  | loadExecutable range => exact Yields.ok (valid.loadExecutable running may.2.2 range)
  | handOver => exact Yields.ok (valid.handOver running may.1 may.2.1 may.2.2)
  | svc =>
    refine (valid.svc running may.2.2).tolerate ?_
    rintro fault rfl
    rfl
  | proceed => exact Yields.error rfl

theorem execute (valid : Valid state) {event : SystemEvent} (permitted : state.permitted event) :
    Yields (KernelFault.possible · = true) (state.execute event) Valid := by
  cases event with
  | tick => exact Yields.ok valid.tick
  | pendSV =>
    refine (valid.schedulerNext permitted).tolerate ?_
    rintro fault rfl
    rfl
  | thread thread step => exact valid.step permitted.1 permitted.2.1 step permitted.2.2

end Valid

section Boot
variable {stack : ThreadId → PageRange} {context : ThreadId → FullRegisterContext}
  {thread : ThreadId}

theorem boot_thread (thread : Nat) :
    thread = defaultThread ∨ thread = fallbackThread ∨ thread = dummyThread ∨
    thread = startupThread ∨ 4 ≤ thread := by
  change thread = 0 ∨ thread = 1 ∨ thread = 2 ∨ thread = 3 ∨ 4 ≤ thread
  omega

theorem boot_unborn (large : 4 ≤ thread) : (State.boot stack context).threads thread = .unborn := by
  have above : ∀ fixed < 4, thread ≠ fixed :=
    fun fixed below => Nat.ne_of_gt (Nat.lt_of_lt_of_le below large)
  simp [State.boot, above defaultThread (by decide), above fallbackThread (by decide), above dummyThread (by decide),
    above startupThread (by decide)]

theorem boot_holds : ((State.boot stack context).threads thread).holds = [] := by
  obtain rfl | rfl | rfl | rfl | large := boot_thread thread
  · rfl
  · rfl
  · rfl
  · rfl
  · rw [boot_unborn large]
    rfl

theorem boot_tally (kind : Hold) : (State.boot stack context).tally kind thread = 0 := by
  have frames : held (State.boot stack context).threads 4 kind thread = 0 :=
    Finset.sum_eq_zero fun other _ => by rw [boot_holds]; rfl
  unfold State.tally
  rw [show (State.boot stack context).next = 4 from rfl, frames]
  cases kind <;> rfl

private theorem boot_static (small : thread ∈ [defaultThread, fallbackThread, dummyThread,
    startupThread]) :
    Fine ((State.boot stack context).view thread) := by
  have explicit : (State.boot stack context).view thread =
    ⟨(State.boot stack context).threads thread,
      (State.boot stack context).role thread, decide (thread < 4), [dummyThread].count thread,
      [startupThread].count thread, fun _ => 0, fun _ => 0, fun _ => 0⟩ :=
    View.ext rfl rfl rfl rfl rfl (funext boot_tally) rfl rfl
  rw [explicit]
  simp only [List.mem_cons, List.not_mem_nil, or_false] at small
  obtain rfl | rfl | rfl | rfl := small
  all_goals constructor <;> simp +decide [View.static, View.places, View.ready, View.locked, State.boot, State.role]

private theorem boot_sound : (State.boot stack context).Sound := by
  intro thread
  obtain rfl | rfl | rfl | rfl | large := boot_thread thread
  · exact boot_static (by decide)
  · exact boot_static (by decide)
  · exact boot_static (by decide)
  · exact boot_static (by decide)
  · have above : ∀ fixed < 4, fixed ≠ thread :=
      fun fixed below => Nat.ne_of_lt (Nat.lt_of_lt_of_le below large)
    have explicit : (State.boot stack context).view thread =
        ⟨.unborn, .ordinary, false, 0, 0, fun _ => 0, fun _ => 0, fun _ => 0⟩ := by
      refine View.ext (boot_unborn large) ((State.role_of_large large).trans (if_neg nofun))
        (decide_eq_false (Nat.not_lt.mpr large)) ?_ ?_ (funext boot_tally) rfl rfl
      · exact List.count_eq_zero.mpr fun member =>
          above dummyThread (by decide) (List.mem_singleton.mp member).symm
      · exact List.count_eq_zero.mpr fun member =>
          above startupThread (by decide) (List.mem_singleton.mp member).symm
    rw [explicit]
    constructor <;> simp [View.static, View.places, View.ready, View.locked, Thread.unborn,
      ProgramPoint.fits,
      ProgramPoint.setUp, ProgramPoint.ends, ProgramPoint.gone]

private theorem boot_order : Order (State.boot stack context) := by
  refine ⟨Nat.le_refl _, nofun, fun thread starts => ?_, fun _ => rfl, nofun, fun thread late => ?_⟩
  · obtain rfl | rfl | rfl | rfl | large := boot_thread thread
    · cases starts
    · cases starts
    · cases starts
    · rfl
    · rw [boot_unborn large] at starts
      cases starts
  · obtain rfl | rfl | rfl | rfl | large := boot_thread thread
    · cases late
    · cases late
    · cases late
    · cases late
    · rw [boot_unborn large] at late
      cases late

theorem boot_valid : Valid (State.boot stack context) := by
  refine ⟨boot_sound, boot_order, fun thread => ?_, nofun, fun thread running _ _ => ?_,
    Or.inr ⟨rfl, rfl, rfl, rfl, fun _ => rfl⟩⟩
  · obtain rfl | rfl | rfl | rfl | large := boot_thread thread
    · exact ⟨fun _ => ⟨rfl, nofun⟩, fun _ => rfl⟩
    · exact ⟨fun _ => ⟨rfl, nofun⟩, fun _ => rfl⟩
    · exact ⟨nofun, fun both => absurd rfl both.2⟩
    · exact ⟨fun _ => ⟨rfl, nofun⟩, fun _ => rfl⟩
    · rw [boot_unborn large]
      exact ⟨nofun, fun both => nomatch both.1⟩
  · obtain rfl : dummyThread = thread := Option.some.inj running
    exact Or.inr rfl

end Boot

/-- In every reachable state the invariant holds, and the next step can only fail with one of the
possible faults. -/
theorem reachable_valid {stack : ThreadId → PageRange} {context : ThreadId → FullRegisterContext}
    {state : State}
    (reachable : State.machine.Reachable (State.boot stack context) state) :
    Valid state ∧ ∀ event fault, state.permitted event → state.execute event = .error fault →
    fault.possible = true :=
  reachable.yields boot_valid fun valid permitted => valid.execute permitted

def State.bootPlain : State := .boot (fun _ => ⟨11, 0⟩) fun _ => entryContext 0 0

namespace SystemEvent

/-- The startup thread brings up the SystemHandler, which is thread 4, and the first process, which
is thread 5, and ends up in the dangling queue. -/
def startup : List SystemEvent :=
  [.thread 2 .enable, .thread 2 .trigger, .pendSV, .thread 3 .constructHandler,
    .thread 3 (.setupHandler ⟨11, 0⟩ (entryContext 0 0)), .thread 3 .construct,
    .thread 3 (.setup 5 ⟨11, 0⟩ (entryContext 0 0)), .thread 3 (.enqueueChild 5), .thread 3 .finish,
    .thread 3 (.mask none), .thread 3 .trigger, .pendSV]

def destroys (thread : ThreadId) : List SystemEvent :=
  [.thread 0 .pollDangling, .thread 0 (.clearDangling thread), .thread 0 .finishDestroy,
    .thread 0 .pollDangling, .pendSV]

def calls (users : List (ThreadId × Bool)) : List SystemEvent :=
  users.flatMap fun (user, new) =>
    (if new then [.thread user .handOver] else []) ++ [.thread user .svc]

def serves (users : List ThreadId) (next : ThreadId) : List SystemEvent :=
  (users.zipIdx next).flatMap fun (user, worker) =>
    [.thread 4 .checkWaiting, .thread 4 .takeWaiting, .thread 4 (.readContext user),
      .thread 4 .construct,
      .thread 4 (.setup worker ⟨11, 0⟩ (entryContext 0 0)), .thread 4 (.enqueueChild worker),
        .thread 4 .finish]

def spawns (user worker child : ThreadId) : List SystemEvent :=
  [.thread worker .construct, .thread worker (.setup child ⟨11, 0⟩ (entryContext 0 0)),
    .thread worker (.enqueueChild child),
    .thread worker (.finishCall user 0), .thread worker (.storeReturn user 0 true),
      .thread worker (.unmaskCaller user),
    .thread worker (.requeueCaller user)]

def ends (worker : ThreadId) : List SystemEvent :=
  [.thread worker (.mask none), .thread worker .trigger, .pendSV] ++ destroys worker

def spawnRound (users : List (ThreadId × Bool)) (next : ThreadId) : List SystemEvent :=
  calls users ++ serves (users.map Prod.fst) next ++ [.thread 4 .checkWaiting, .pendSV] ++
    (users.zipIdx next).flatMap fun ((user, _), worker) =>
      spawns user worker (worker + users.length) ++ ends worker

def spawnRounds : Nat → List (ThreadId × Bool) → ThreadId → List SystemEvent
  | 0, _, _ => []
  | count + 1, users, next => spawnRound users next ++ spawnRounds count
      ((users.zipIdx next).flatMap fun ((user, _), worker) => [(worker + users.length, true),
        (user, false)])
      (next + 2 * users.length)

end SystemEvent

/-- The assertions on saved contexts, and reading a context that is gone. -/
def KernelFault.concernsContext : KernelFault → Bool
  | stashValid | stashInvalid | staleContext => true
  | _ => false

theorem saved_contexts {stack : ThreadId → PageRange} {context : ThreadId → FullRegisterContext}
    {state : State}
    (reachable : State.machine.Reachable (State.boot stack context) state) :
    (∀ thread, (state.threads thread).stashedContext.isSome = true ↔
      (state.threads thread).point.setUp = true ∧ state.activeThread ≠ some thread) ∧
      ∀ event fault, state.permitted event → state.execute event = .error fault →
      fault.concernsContext = false := by
  obtain ⟨valid, faults⟩ := reachable_valid reachable
  refine ⟨valid.contexts, fun event fault permitted failed => ?_⟩
  have possible := faults event fault permitted failed
  cases fault <;> first | rfl | cases possible

theorem saved_contexts_startup :
    ∃ state, State.machine.after .bootPlain SystemEvent.startup = some state ∧
    state.activeThread = some defaultThread ∧
    (state.threads defaultThread).stashedContext.isSome = false ∧
      (state.threads startupThread).stashedContext.isSome = true := by
  have played : (State.machine.after .bootPlain SystemEvent.startup).map
      (fun state => (state.activeThread, (state.threads startupThread).point)) =
        some (some defaultThread, .halted none) := by
    decide +kernel
  obtain ⟨state, executed, shape⟩ := Option.map_eq_some_iff.mp played
  obtain ⟨active, point⟩ := Prod.mk.inj shape
  obtain ⟨contexts, _⟩ := saved_contexts (Machine.reachable_after executed)
  refine ⟨state, executed, active, ?_,
    (contexts startupThread).mpr ⟨by rw [point]; rfl, by rw [active]; decide⟩⟩
  apply Bool.eq_false_iff.mpr
  intro saved
  exact ((contexts defaultThread).mp saved).2 active

end PicoOs.Kernel
