import PicoOs.Proofs.ThreadSteps

/-! The steps of a thread that change another thread. -/

namespace PicoOs.Kernel
open Library

private theorem ProgramPoint.leads_afterEnqueue {point : ProgramPoint}
    (creates : point.mayHaveChild = true) :
    point ≠ .dummyStart ∧ point.Leads point.afterEnqueue ∧
    point.afterEnqueue.holds = point.holds := by
  cases point with
  | startupReady => exact ⟨nofun, ⟨fun _ fits => fits, rfl, rfl, rfl, fun _ => rfl⟩, rfl⟩
  | handlerContext
  | handlerSpawned => exact ⟨nofun, ⟨fun _ fits => fits, rfl, rfl, rfl, nofun⟩, rfl⟩
  | workerCall => exact ⟨nofun, ⟨fun _ fits => fits, rfl, rfl, rfl, fun _ => rfl⟩, rfl⟩
  | _ => cases creates

theorem ProgramPoint.creates_leads {point : ProgramPoint} (creating : point.creates = true) :
    point.mayHaveChild = true ∧ point ≠ .dummyStart ∧ point.Leads point := by
  cases point with
  | startupReady | handlerContext
  | workerCall => exact ⟨rfl, nofun, ⟨fun _ fits => fits, rfl, rfl, rfl, id⟩⟩
  | _ => cases creating

private theorem ProgramPoint.creates_setup {point : ProgramPoint}
    (creating : point.creates = true) :
    point.Leads point.afterSetup ∧ point.afterSetup.mayHaveChild = true ∧
      (point.entry.fits .ordinary = true ∧ point.entry.setUp = true ∧ point.entry.ends = false ∧
        point.entry.starts = false) ∧
      ∀ held, point.entry.holds.count held + point.afterSetup.holds.count held =
        point.holds.count held := by
  cases point with
  | startupReady =>
      exact ⟨⟨fun _ fits => fits, rfl, rfl, rfl, id⟩, rfl, ⟨rfl, rfl, rfl, rfl⟩, fun _ => rfl⟩
  | handlerContext =>
      exact ⟨⟨fun _ fits => fits, rfl, rfl, rfl, nofun⟩, rfl, ⟨rfl, rfl, rfl, rfl⟩, fun _ => rfl⟩
  | workerCall =>
      exact ⟨⟨fun _ fits => fits, rfl, rfl, rfl, id⟩, rfl, ⟨rfl, rfl, rfl, rfl⟩,
        fun _ => Nat.zero_add _⟩
  | _ => cases creating

def State.destroyed (state : State) (thread victim : ThreadId) : State :=
  { (state.modify victim fun _ => { Thread.unborn with point := .destroyed }).setPoint thread
      (.defaultDestroying (state.threads victim).ownedPageRanges) with
    leaked := state.leaked ++ (state.threads victim).references }

private theorem State.destroyed_threads {state : State} {thread victim : ThreadId}
    (differs : victim ≠ thread) :
    (state.destroyed thread victim).threads =
      Function.update (Function.update state.threads victim { Thread.unborn with point := .destroyed }) thread
        { state.threads thread with point := .defaultDestroying (state.threads victim).ownedPageRanges } := by
  simp only [destroyed, setPoint, modify, Function.update_of_ne differs.symm]

private theorem ProgramPoint.ends_holds {point : ProgramPoint} (ended : point.ends = true)
    (kind : Hold) (thread : ThreadId) :
    point.holds.count (kind, thread) = if kind = .parked then point.references.count thread else 0 := by
  cases point with
  | dummyStart | dummyEnabled => cases kind <;> rfl
  | dying captured
  | halted captured =>
      cases captured <;> cases kind <;> simp [holds, references, List.count_singleton]
  | _ => cases ended

private theorem State.handler_of_role {state : State} {thread : ThreadId}
    (role : state.role thread = .handler) :
    state.systemHandler = some thread := by
  unfold State.role at role
  split at role
  next => cases role
  split at role
  next => cases role
  split at role
  next => cases role
  split at role
  next serves => exact serves
  next => cases role

private theorem pair_field {γ : Type} {threads : ThreadId → Thread} {thread other : ThreadId}
    {first last : Thread}
    (field : Thread → γ) (differs : other ≠ thread) (one : field first = field (threads other))
    (two : field last = field (threads thread)) {counted : ThreadId} :
    field (Function.update (Function.update threads other first) thread last counted) =
      field (threads counted) := by
  rw [update_field field (two.trans (by rw [Function.update_of_ne differs.symm])), update_field field one]

namespace State
variable {before after : State} {thread other : ThreadId} {first last : Thread}

theorem tally_pair (born : thread < before.next) (bornOther : other < before.next)
    (differs : other ≠ thread)
    (threads : after.threads = Function.update (Function.update before.threads other first) thread last)
    (next : after.next = before.next) (kind : Hold) (counted : ThreadId) :
    after.tally kind counted + before.outside kind counted +
      (before.threads other).holds.count (kind, counted) +
        (before.threads thread).holds.count (kind, counted) =
      before.tally kind counted + after.outside kind counted + first.holds.count (kind, counted) +
        last.holds.count (kind, counted) := by
  have outer := @held_update (Function.update before.threads other first) before.next thread born
    last kind counted
  have inner := @held_update before.threads before.next other bornOther first kind counted
  rw [Function.update_of_ne differs.symm] at outer
  simp only [tally, threads, next]
  omega

/-- Two threads change; only the places of the other one do. -/
theorem pair_sound (sound : before.Sound) (born : thread < before.next)
    (bornOther : other < before.next)
    (differs : other ≠ thread)
    (threads : after.threads = Function.update (Function.update before.threads other first) thread last)
    (next : after.next = before.next)
    (balance : ∀ kind counted, counted ≠ other →
      after.outside kind counted + first.holds.count (kind, counted) +
        last.holds.count (kind, counted) =
      before.outside kind counted + (before.threads other).holds.count (kind, counted) +
        (before.threads thread).holds.count (kind, counted))
    (rest : ∀ counted, counted ≠ other → after.view counted = { before.view counted with
      thread := after.threads counted, tally := fun kind => after.tally kind counted })
    (own : Fine { before.view thread with thread := last }) (moved : Fine (after.view other)) :
      after.Sound := by
  intro counted
  by_cases target : counted = other
  · subst target
    exact moved
  · have tally : (fun kind => after.tally kind counted) = fun kind =>
      before.tally kind counted := by
      funext kind
      have counts := tally_pair born bornOther differs threads next kind counted
      have balanced := balance kind counted target
      omega
    rw [rest counted target, tally, threads]
    by_cases same : counted = thread
    · subst same
      rw [Function.update_self]
      exact own
    · rw [Function.update_of_ne same, Function.update_of_ne target]
      exact sound counted

/-- A reference in a frame of the active thread goes to the end of the ready queue. -/
theorem join_sound (sound : before.Sound) (running : before.activeThread = some thread)
    (threads : after.threads = Function.update before.threads thread last)
    (next : after.next = before.next)
    (outside : after.outside = before.outside)
    (queue : after.queuedThreads = before.queuedThreads ++ [other])
    (holds : ∀ kind counted, last.holds.count (kind, counted) + (if (kind, counted) = (.ready, other) then 1 else 0) =
      (before.threads thread).holds.count (kind, counted))
    (rest : ∀ counted, after.view counted = { before.view counted with
      thread := after.threads counted, queued := (after.view counted).queued,
      tally := (after.view counted).tally })
    (own : Fine { before.view thread with thread := last }) : after.Sound := by
  have born := active_born sound running
  have counts := fun kind counted => tally_update born threads next rfl kind counted
  simp only [outside] at counts
  have due : 1 ≤ (before.view other).tally .ready := by
    refine counted born (List.count_pos_iff.mp ?_)
    have one := holds .ready other
    rw [if_pos rfl] at one
    omega
  have differs : other ≠ thread := by
    intro same
    subst same
    have role := (sound other).due due
    have single := (sound other).single (by rw [role]; nofun)
    have run : (before.view other).running = 1 := by simp [view, running]
    simp only [View.places, View.ready] at single
    omega
  intro counted
  rw [rest]
  by_cases target : counted = other
  · subst target
    have joined := (sound counted).join due
    convert joined using 1
    refine View.ext (by rw [threads, Function.update_of_ne differs]; rfl) rfl rfl rfl ?_ ?_ rfl rfl
    · simp [view, queue]
    · funext kind
      have count := counts kind counted
      have hold := holds kind counted
      simp only [view] at due ⊢
      cases kind <;> simp at hold ⊢ <;> omega
  · have queued : (after.view counted).queued = (before.view counted).queued := by
      simp [view, queue, Ne.symm target]
    have tally : (after.view counted).tally = (before.view counted).tally := by
      funext kind
      have count := counts kind counted
      have hold := holds kind counted
      rw [if_neg fun same => target (Prod.mk.inj same).2] at hold
      simp only [view]
      omega
    rw [queued, tally, threads]
    by_cases same : counted = thread
    · subst same
      rw [Function.update_self]
      exact own
    · rw [Function.update_of_ne same]
      exact sound counted

/-- A thread object is created for the active thread, and nothing else changes. -/
theorem spawn_sound (sound : before.Sound) (running : before.activeThread = some thread)
    (threads : after.threads = Function.update (Function.update before.threads thread last) before.next first)
    (next : after.next = before.next + 1) (outside : after.outside = before.outside)
    (holds : ∀ kind counted, last.holds.count (kind, counted) + first.holds.count (kind, counted) =
      (before.threads thread).holds.count (kind, counted) + (if (kind, counted) = (.nascent, before.next) then 1 else 0))
    (rest : ∀ counted, after.view counted = { before.view counted with
      thread := after.threads counted, born := decide (counted < after.next),
      tally := (after.view counted).tally })
    (own : Fine { before.view thread with thread := last })
    (fresh : first = { Thread.construct with privileged := true }) : after.Sound := by
  have born := active_born sound running
  have counts : ∀ kind counted, after.tally kind counted =
      before.tally kind counted + (if (kind, counted) = (.nascent, before.next) then 1 else 0) := by
    intro kind counted
    have outer := held_succ (Function.update before.threads thread last) before.next
      first kind counted
    have inner := @held_update before.threads before.next thread born last kind counted
    have hold := holds kind counted
    simp only [tally, threads, next, outside]
    omega
  intro counted
  rw [rest]
  by_cases target : counted = before.next
  · subst target
    have unborn : (before.view before.next).born = false := by simp [view]
    convert (sound before.next).spawn unborn using 1
    refine View.ext (by rw [threads, Function.update_self, fresh]) rfl (by simp [next]) rfl rfl ?_ rfl rfl
    funext kind
    have count := counts kind before.next
    simp only [view] at count ⊢
    cases kind <;> simpa using count
  · have tally : (after.view counted).tally = (before.view counted).tally := by
      funext kind
      have count := counts kind counted
      rwa [if_neg fun same => target (Prod.mk.inj same).2] at count
    have same : decide (counted < after.next) = (before.view counted).born := by
      rw [next]
      exact born_succ target
    rw [tally, same, threads, Function.update_of_ne target]
    by_cases same : counted = thread
    · subst same
      rw [Function.update_self]
      exact own
    · rw [Function.update_of_ne same]
      exact sound counted

end State
namespace Valid
variable {before after : State} {thread : ThreadId}

/-- The active thread moves on while another thread, that is not the SystemHandler, changes. -/
theorem alongside (valid : Valid before) (opened : ∀ mutex, (after.mutexes mutex).enabled = true)
    (running : before.activeThread = some thread) (sound : after.Sound) (point : ProgramPoint)
    (leads : (before.threads thread).point.Leads point)
    (moved : (after.threads thread).point = point) {other : ThreadId}
    (points : ∀ another, another ≠ thread → another ≠ other →
      (after.threads another).point = (before.threads another).point)
    (contexts : ∀ another, another ≠ other →
      (after.threads another).stashedContext.isSome =
        (before.threads another).stashedContext.isSome)
    (differs : other ≠ thread) (plain : before.role other ≠ .handler)
    (starts : (after.threads other).point.starts = false)
    (late : (after.threads other).point.late = true → before.served)
    (saved : (after.threads other).stashedContext.isSome = (after.threads other).point.setUp)
    (masks : (after.threads thread).maskedFromScheduler =
      (before.threads thread).maskedFromScheduler)
    (next : before.next ≤ after.next)
    (same : after.systemHandler = before.systemHandler ∧ after.activeThread = before.activeThread)
    (pending : before.pendSV = true → after.pendSV = true) : Valid after := by
  have ⟨handler, active⟩ := same
  have alive : (before.threads thread).point.setUp = true :=
    (valid.sound thread).running (by simp [State.view, running])
  refine ⟨sound, ?_, fun another => ?_, active ▸ valid.active,
    fun another runs masked default => ?_, Or.inl opened⟩
  · refine valid.order.step next handler (fun another => ?_) fun server serves => ?_
    · by_cases target : another = thread
      · subst target
        rw [moved]
        exact Or.inr ⟨leads.starts, fun new => valid.order.late another (leads.late new)⟩
      · by_cases beside : another = other
        · subst beside
          exact Or.inr ⟨starts, late⟩
        · exact Or.inl (points another target beside)
    · by_cases target : server = thread
      · subst target
        rw [moved]
        exact Or.inr ⟨(ProgramPoint.setUp_excludes alive).2.1, leads.setUp⟩
      · have beside : server ≠ other := by
          intro same
          subst same
          apply plain
          rw [State.role_of_large (valid.order.handler server serves).1, if_pos serves]
        exact Or.inl (points server target beside)
  · rw [active]
    by_cases beside : another = other
    · subst beside
      rw [saved, running]
      exact ⟨fun setUp => ⟨setUp, fun same => differs (Option.some.inj same).symm⟩,
        fun both => both.1⟩
    · rw [contexts another beside]
      by_cases target : another = thread
      · subst target
        have saved := valid.contexts another
        rw [alive] at saved
        rw [moved, leads.setUp]
        exact saved
      · rw [points another target beside]
        exact valid.contexts another
  · have target : another = thread := Option.some.inj ((active ▸ runs).symm.trans running)
    subst target
    rw [moved, leads.ends]
    exact (valid.pending another running (masks ▸ masked) default).imp_left pending

end Valid

namespace Valid
variable {state : State} {thread : ThreadId} (valid : Valid state)
  (running : state.activeThread = some thread)
  (unlocked : (state.threads thread).locks = [])
  (acquiring : (state.threads thread).acquiring = none)
include valid running unlocked acquiring

theorem unmaskCaller {caller : ThreadId}
    (point : (state.threads thread).point = .workerStored caller true) :
    Valid (state.unmaskCaller thread caller) := by
  have parked := @Valid.parked state thread valid running caller
    (by rw [point]; exact List.mem_singleton_self _)
  have born := State.active_born valid.sound running
  have childless := valid.childless (by rw [point]; rfl)
  have fits := (valid.sound thread).fits
  rw [State.view_thread, point] at fits
  have threads : (state.unmaskCaller thread caller).threads =
    Function.update (Function.update state.threads caller
      { state.threads caller with maskedFromScheduler := false }) thread
      { state.threads thread with point := .workerUnmasked caller } := by
    simp only [State.unmaskCaller, State.setPoint, State.modify,
      Function.update_of_ne parked.differs.symm]
  have outside : (state.unmaskCaller thread caller).outside = state.outside := rfl
  have sound : (state.unmaskCaller thread caller).Sound := by
    refine State.pair_sound valid.sound born parked.born parked.differs threads rfl ?_
      (fun _ _ => rfl) ?_ ?_
    · intro kind counted other
      rw [outside, Thread.count_holds, Thread.count_holds, Thread.count_holds,
        Thread.count_holds, point]
      cases kind <;> simp [ProgramPoint.holds, Ne.symm other]
    · exact (valid.sound thread).advance (by simp [State.view, running]) fits rfl (by rw [State.view_thread, point]; rfl)
        unlocked acquiring fun child => absurd childless child
    · convert (valid.sound caller).resume parked.counted using 1
      refine View.ext (by rw [State.view_thread, threads, Function.update_of_ne parked.differs, Function.update_self]; rfl)
        rfl rfl rfl rfl ?_ rfl rfl
      funext kind
      have counts := State.tally_pair born parked.born parked.differs threads rfl kind caller
      rw [outside, Thread.count_holds, Thread.count_holds, Thread.count_holds, Thread.count_holds,
        point] at counts
      have counted := parked.counted
      simp only [State.view] at counted ⊢
      cases kind <;> simp [ProgramPoint.holds] at counts ⊢ <;> omega
  have moved : (state.unmaskCaller thread caller).threads caller =
      { state.threads caller with maskedFromScheduler := false } := by
    rw [threads, Function.update_of_ne parked.differs, Function.update_self]
  have ordinary := ProgramPoint.fits_userMode (valid.sound caller).fits parked.user
  refine valid.alongside (valid.opened running (by rw [point]; rintro ⟨⟩)) running sound (.workerUnmasked caller) ?_ ?_ ?_ ?_
    parked.differs ?_ ?_ ?_ ?_ ?_ (Nat.le_refl _) ⟨rfl, rfl⟩ id
  · rw [point]
    exact ⟨fun _ fits => fits, rfl, rfl, rfl, fun _ => rfl⟩
  · rw [threads, Function.update_self]
  · intro another differs beside
    rw [threads, Function.update_of_ne differs, Function.update_of_ne beside]
  · intro another beside
    rw [threads]
    refine pair_field (fun value => value.stashedContext.isSome) parked.differs ?_ ?_ <;> rfl
  · intro handler
    cases ordinary.symm.trans handler
  · rw [moved, parked.user]
    rfl
  · exact fun _ => valid.order.late caller (by rw [parked.user]; rfl)
  · rw [moved, parked.saved, parked.user]
    rfl
  · rw [threads, Function.update_self]

theorem requeueCaller {caller : ThreadId}
    (point : (state.threads thread).point = .workerUnmasked caller) :
    Yields (KernelFault.possible · = true) (state.requeueCaller thread caller) Valid := by
  have childless := valid.childless (by rw [point]; rfl)
  have fits := (valid.sound thread).fits
  rw [State.view_thread, point] at fits
  unfold State.requeueCaller State.addThread enqueue
  split
  next room =>
    refine Yields.ok (valid.follow (valid.opened running (by rw [point]; nofun)) running
      { state.threads thread with point := .returned none }
        (State.join_sound valid.sound running rfl rfl rfl rfl ?_
        (fun _ => rfl) ?_) rfl rfl nofun (by rw [point]; nofun) rfl Or.inl rfl ⟨rfl, rfl, rfl⟩ id)
    · intro kind counted
      rw [Thread.count_holds, Thread.count_holds, point]
      cases kind <;> simp [ProgramPoint.holds, List.count_singleton,
        @eq_comm _ caller counted, Nat.add_comm]
    · exact (valid.sound thread).advance (by simp [State.view, running]) fits rfl (by rw [State.view_thread, point]; rfl)
        unlocked acquiring fun child => absurd childless child
  next => exact Yields.error rfl

theorem enqueueChild {child : ThreadId}
    (prepared : (state.threads thread).child = .prepared child) :
    Yields (KernelFault.possible · = true) (state.enqueueChild thread child) Valid := by
  have creates := (valid.sound thread).child (by rw [State.view_thread, prepared]; nofun)
  have fits := (valid.sound thread).fits
  rw [State.view_thread] at creates fits
  have ⟨elsewhere, leads, kept⟩ := ProgramPoint.leads_afterEnqueue creates
  unfold State.enqueueChild State.addThread enqueue
  split
  next room =>
    refine Yields.ok (valid.follow (valid.opened running elsewhere) running
      { state.threads thread with point := (state.threads thread).point.afterEnqueue, child := .none }
      (State.join_sound valid.sound running rfl rfl rfl rfl ?_ (fun _ => rfl) ?_) leads.setUp
        leads.starts leads.late
      leads.ends.ge rfl Or.inl rfl ⟨rfl, rfl, rfl⟩ id)
    · intro kind counted
      rw [Thread.count_holds, Thread.count_holds, prepared, kept]
      cases kind <;> simp [Child.holds, List.count_singleton, @eq_comm _ child counted]
    · exact (valid.sound thread).advance (by simp [State.view, running]) (leads.fits _ fits) leads.setUp leads.ends
        unlocked acquiring nofun
  next => exact Yields.error rfl

omit running unlocked acquiring in
private theorem restash (opened : ∀ mutex, (state.mutexes mutex).enabled = true) (caller : ThreadId)
    (saved : (state.threads caller).stashedContext.isSome = true) (context : FullRegisterContext) :
    Valid (state.modify caller fun thread => { thread with stashedContext := some context }) := by
  have points : ∀ other, ((state.modify caller fun thread => { thread with stashedContext := some context }).threads other).point =
      (state.threads other).point := fun _ => update_field Thread.point rfl
  refine ⟨fun other => ?_, valid.order.step (Nat.le_refl _) rfl (fun other => Or.inl (points other)) fun _ _ =>
    Or.inl (points _), fun other => ?_, valid.active, fun other running masked => ?_, Or.inl opened⟩
  · rw [State.view_modify rfl]
    by_cases same : other = caller
    · subst same
      rw [State.modify_self]
      exact (valid.sound other).setContext _ _ _
    · rw [State.modify_of_ne _ same]
      exact valid.sound other
  · rw [points]
    by_cases same : other = caller
    · subst same
      rw [State.modify_self]
      exact ⟨fun _ => (valid.contexts other).mp saved, fun _ => rfl⟩
    · rw [State.modify_of_ne _ same]
      exact valid.contexts other
  · rw [points]
    have kept : ∀ other, ((state.modify caller fun thread => { thread with stashedContext := some context }).threads
        other).maskedFromScheduler = (state.threads other).maskedFromScheduler :=
      fun _ => update_field Thread.maskedFromScheduler rfl
    exact valid.pending other running (kept other ▸ masked)

theorem storeReturn {caller : ThreadId} {value : UInt32} {shouldReturn : Bool}
    (point : (state.threads thread).point = .workerReturn caller value shouldReturn) :
    Yields (KernelFault.possible · = true) (state.storeReturn thread caller value shouldReturn) Valid := by
  have parked := @Valid.parked state thread valid running caller
    (by rw [point]; exact List.mem_singleton_self _)
  have childless := valid.childless (by rw [point]; rfl)
  obtain ⟨context, saved⟩ := Option.isSome_iff_exists.mp parked.saved
  unfold State.storeReturn
  rw [saved]
  have restashed := valid.restash (valid.opened running (by rw [point]; nofun)) caller parked.saved { context with r0 := value }
  have same : (state.modify caller fun thread => { thread with stashedContext := some { context with r0 := value } }).threads
      thread = state.threads thread := State.modify_of_ne _ parked.differs.symm
  rw [← same] at unlocked acquiring point childless
  refine Yields.ok (restashed.go running unlocked acquiring point childless _ nofun ?_ rfl)
  exact ⟨fun _ fits => fits, rfl, rfl, rfl, fun _ => rfl⟩

theorem construct (creates : (state.threads thread).point.creates = true)
    (childless : (state.threads thread).child = .none) :
    Valid (state.construct thread) := by
  have born := State.active_born valid.sound running
  obtain ⟨may, elsewhere, leads⟩ := ProgramPoint.creates_leads creates
  have fits := (valid.sound thread).fits
  have differs : state.next ≠ thread := Nat.ne_of_gt born
  have threads : (state.construct thread).threads = Function.update
    (Function.update state.threads thread
      { state.threads thread with child := .fresh state.next }) state.next {
        Thread.construct with privileged := true } := rfl
  have moved : (state.construct thread).threads thread =
    { state.threads thread with child := .fresh state.next } := by
    rw [threads, Function.update_of_ne differs.symm, Function.update_self]
  have fresh : (state.construct thread).threads state.next =
    { Thread.construct with privileged := true } := by
    rw [threads, Function.update_self]
  have sound : (state.construct thread).Sound := by
    refine State.spawn_sound valid.sound running rfl rfl rfl ?_ (fun _ => rfl) ?_ rfl
    · intro kind counted
      rw [Thread.count_holds, Thread.count_holds, Thread.count_holds, childless]
      cases kind <;> simp [Child.holds, List.count_singleton, @eq_comm _ state.next counted,
        Thread.construct, ProgramPoint.holds, Thread.unborn]
    · exact (valid.sound thread).advance (by simp [State.view, running]) fits leads.setUp rfl unlocked acquiring fun _ => may
  have unborn : (state.view state.next).born = false := by simp [State.view]
  have ordinary : state.role state.next = .ordinary :=
    ProgramPoint.fits_gone (valid.sound state.next).fits
      (by rw [(valid.sound state.next).born.mp unborn]; rfl)
  refine valid.alongside (valid.opened running elsewhere) running sound (state.threads thread).point
    leads (by rw [moved]) ?_ ?_
    differs ?_ ?_ ?_ ?_ ?_ (Nat.le_succ _) ⟨rfl, rfl⟩ id
  · intro another differs beside
    rw [threads, Function.update_of_ne beside, Function.update_of_ne differs]
  · intro another beside
    rw [threads, Function.update_of_ne beside]
    exact update_field (fun value => value.stashedContext.isSome) rfl
  · intro handler
    cases ordinary.symm.trans handler
  · rw [fresh]
    rfl
  · rw [fresh]
    rintro ⟨⟩
  · rw [fresh]
    rfl
  · rw [moved]

omit unlocked acquiring in
private theorem created_served (creates : (state.threads thread).point.creates = true) :
    state.served := by
  have fits := (valid.sound thread).fits
  have setUp := (valid.sound thread).running (by simp [State.view, running])
  rw [State.view_thread] at fits setUp
  cases point : (state.threads thread).point with
  | startupReady => exact valid.order.late thread (by rw [point]; rfl)
  | workerCall => exact valid.order.late thread (by rw [point]; rfl)
  | handlerContext =>
    rw [point] at fits
    exact ⟨thread, State.handler_of_role (of_decide_eq_true fits), setUp⟩
  | _ =>
    rw [point] at creates
    cases creates

theorem setup {child : ThreadId} (creates : (state.threads thread).point.creates = true)
    (fresh : (state.threads thread).child = .fresh child) (stack : PageRange)
    (context : FullRegisterContext) :
    Yields (KernelFault.possible · = true) (state.setup thread child stack context) Valid := by
  have born := State.active_born valid.sound running
  obtain ⟨may, elsewhere, _⟩ := ProgramPoint.creates_leads creates
  obtain ⟨leads, carries, ⟨entryFits, entrySetUp, entryEnds, entryStarts⟩, shares⟩ :=
    ProgramPoint.creates_setup creates
  have fits := (valid.sound thread).fits
  have nascent : 1 ≤ (state.view child).tally .nascent :=
    State.counted born (by rw [Thread.holds, fresh]; exact List.mem_append_right _ (List.mem_singleton_self _))
  obtain ⟨young, ordinary⟩ := (valid.sound child).nascent nascent
  rw [State.view_thread] at young
  have bornChild : child < state.next := State.born_of_point valid.sound (by rw [young]; rintro ⟨⟩)
  have childless : (state.threads child).child = .none := valid.childless (by rw [young]; rfl)
  have alive : (state.threads thread).point.setUp = true := ProgramPoint.mayHaveChild_setUp may
  have differs : child ≠ thread := by
    intro same
    rw [← same, young] at alive
    cases alive
  have empty : (state.threads child).stashedContext.isSome = false := by
    refine Bool.eq_false_iff.mpr fun saved => ?_
    have setUp := ((valid.contexts child).mp saved).1
    rw [young] at setUp
    cases setUp
  unfold State.setup Thread.setupContext
  rw [empty]
  refine Yields.bind (Yields.ok rfl) fun value same => Yields.ok ?_
  have threads : ((state.modify child fun _ => value).modify thread fun value => { value with
      point := (state.threads thread).point.afterSetup, child := .prepared child }).threads =
      Function.update (Function.update state.threads child value) thread { state.threads thread with
        point := (state.threads thread).point.afterSetup, child := .prepared child } := by
    simp only [State.modify, Function.update_of_ne differs.symm]
  have moved := congrFun threads child
  rw [Function.update_of_ne differs, Function.update_self] at moved
  have own := congrFun threads thread
  rw [Function.update_self] at own
  have holds : ∀ kind counted, value.holds.count (kind, counted) =
      (state.threads thread).point.entry.holds.count (kind, counted) := by
    intro kind counted
    rw [Thread.count_holds, ← same]
    simp [childless, Child.holds]
  have old : ∀ kind counted, (state.threads child).holds.count (kind, counted) = 0 := by
    intro kind counted
    rw [Thread.count_holds, young, childless]
    rfl
  refine valid.alongside (valid.opened running elsewhere) running ?_ _ leads
    (by rw [own]) ?_ ?_ differs
    (fun handler => by cases ordinary.symm.trans handler) ?_ ?_ ?_ ?_ (Nat.le_refl _) ⟨rfl, rfl⟩ id
  · refine State.pair_sound valid.sound born bornChild differs threads rfl ?_ (fun _ _ => rfl) ?_ ?_
    · intro kind counted other
      have shared := shares (kind, counted)
      change state.outside kind counted + _ + _ = _
      rw [holds, old, Thread.count_holds, Thread.count_holds, fresh]
      cases kind <;> simp [Child.holds, Ne.symm other] <;> omega
    · exact (valid.sound thread).advance (by simp [State.view, running]) (leads.fits _ fits) leads.setUp leads.ends unlocked
        acquiring fun _ => carries
    · have prepared := ((valid.sound child).setContext (some context) ((state.threads child).ownedPageRanges ++ [stack])
        (state.threads child).privileged).prepare nascent entryFits entrySetUp entryEnds
      convert prepared using 1
      refine View.ext (by rw [State.view_thread, moved, ← same]; rfl) rfl rfl rfl rfl ?_ rfl rfl
      funext kind
      have counts := State.tally_pair born bornChild differs threads rfl kind child
      have shared := shares (kind, child)
      have nascent := nascent
      rw [holds, old, Thread.count_holds, Thread.count_holds, fresh] at counts
      simp only [State.view] at nascent ⊢
      change _ = state.tally kind child + state.outside kind child + _ + _ at counts
      cases kind <;> simp [Child.holds] at counts ⊢ <;> omega
  · intro another differs beside
    rw [threads, Function.update_of_ne differs, Function.update_of_ne beside]
  · intro another beside
    rw [threads, update_field (fun value => value.stashedContext.isSome),
      Function.update_of_ne beside]
    rw [Function.update_of_ne differs.symm]
  · rw [moved, ← same]
    exact entryStarts
  · exact fun _ => valid.created_served running creates
  · rw [moved, ← same]
    exact entrySetUp.symm
  · rw [own]

theorem clearDangling {victim : ThreadId}
    (point : (state.threads thread).point = .defaultRelease victim) :
    Yields (KernelFault.possible · = true) (state.clearDangling thread victim) Valid := by
  have born := State.active_born valid.sound running
  have childless := valid.childless (by rw [point]; rfl)
  have fits := (valid.sound thread).fits
  rw [State.view_thread, point] at fits
  have doomed : 1 ≤ (state.view victim).tally .doomed :=
    State.counted born (by rw [Thread.holds, point]; exact List.mem_append_left _ (List.mem_singleton_self _))
  obtain ⟨ends, single⟩ := (valid.sound victim).doomed doomed
  rw [State.view_thread] at ends single
  obtain ⟨setUp, _, barren, _⟩ := ProgramPoint.ends_excludes ends
  have bornVictim : victim < state.next :=
    State.born_of_point valid.sound (ProgramPoint.setUp_excludes setUp).2.2
  have childlessVictim := valid.childless barren
  have differs : victim ≠ thread := by
    intro same
    rw [same, point] at ends
    cases ends
  unfold State.clearDangling
  dsimp only
  rw [if_pos single]
  refine Yields.ok (show Valid (state.destroyed thread victim) from ?_)
  have threads := @State.destroyed_threads state thread victim differs
  have outside : ∀ kind counted, (state.destroyed thread victim).outside kind counted =
      state.outside kind counted + (state.threads victim).holds.count (kind, counted) := by
    intro kind counted
    rw [Thread.count_holds, childlessVictim, ProgramPoint.ends_holds ends]
    cases kind <;> simp [State.outside, State.destroyed, Thread.references, childlessVictim,
      Child.holds, Child.references,
      State.setPoint, State.modify, Nat.add_assoc]
  have holds : ∀ kind counted, ({ Thread.unborn with point := .destroyed } : Thread).holds.count
    (kind, counted) = 0 :=
    fun _ _ => rfl
  have moved := congrFun threads victim
  rw [Function.update_of_ne differs, Function.update_self] at moved
  have own := congrFun threads thread
  rw [Function.update_self] at own
  have leads : (state.threads thread).point.Leads (.defaultDestroying (state.threads victim).ownedPageRanges) := by
    rw [point]
    exact ⟨fun _ fits => fits, rfl, rfl, rfl, by rintro ⟨⟩⟩
  refine valid.alongside (valid.opened running (by rw [point]; rintro ⟨⟩)) running ?_ _ leads (by rw [own]) ?_ ?_ differs ?_ ?_ ?_
    ?_ ?_ (Nat.le_refl _) ⟨rfl, rfl⟩ id
  · refine State.pair_sound valid.sound born bornVictim differs threads rfl ?_
      (fun _ _ => rfl) ?_ ?_
    · intro kind counted other
      rw [outside, holds, Thread.count_holds, Thread.count_holds, Thread.count_holds, point]
      cases kind <;> simp [ProgramPoint.holds, Ne.symm other]
    · exact (valid.sound thread).advance (by simp [State.view, running]) fits rfl (by rw [State.view_thread, point]; rfl)
        unlocked acquiring fun child => absurd childless child
    · convert (valid.sound victim).destroy doomed using 1
      refine View.ext (by rw [State.view_thread, moved]) rfl rfl rfl rfl ?_ rfl rfl
      funext kind
      have counts := State.tally_pair born bornVictim differs threads rfl kind victim
      rw [outside, holds] at counts
      generalize (state.threads victim).holds = kept at counts
      rw [Thread.count_holds, Thread.count_holds, point] at counts
      simp only [State.view] at doomed ⊢
      cases kind <;> simp [ProgramPoint.holds] at counts ⊢ <;> omega
  · intro another differs beside
    rw [threads, Function.update_of_ne differs, Function.update_of_ne beside]
  · intro another beside
    rw [threads, update_field (fun value => value.stashedContext.isSome),
      Function.update_of_ne beside]
    rw [Function.update_of_ne differs.symm]
  · intro handler
    have role := ProgramPoint.fits_ends (valid.sound victim).fits ends
    rcases role with ordinary | dummy
    · cases ordinary.symm.trans handler
    · cases dummy.symm.trans handler
  · rw [moved]
    rfl
  · rw [moved]
    rintro ⟨⟩
  · rw [moved]
    rfl
  · rw [own]

end Valid
end PicoOs.Kernel
