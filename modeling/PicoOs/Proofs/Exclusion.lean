import PicoOs.Proofs.HandOver
import PicoOs.Proofs.Placement
import PicoOs.Proofs.StepEffects

/-! Mutual exclusion, as long as no blocked thread is made to run by something else
than the mutex. -/

namespace PicoOs.Kernel
open Library

/-- How a thread stands to a mutex. -/
structure Excludes (thread : ThreadId) (mutex : MutexId) (value : Thread)
    (content : KernelMutex) : Prop where
  holds : mutex ∈ value.locks → content.holdingThread = some thread
  enters : value.acquiring = some mutex →
    content.holdingThread = some thread ∧ value.maskedFromScheduler = false ∨
      thread ∈ content.waitingThreads
  waits : thread ∈ content.waitingThreads → value.acquiring = some mutex ∧
    value.maskedFromScheduler = true
  apart : value.acquiring = some mutex → mutex ∉ value.locks

structure Exclusive (state : State) : Prop where
  each : ∀ thread mutex, Excludes thread mutex (state.threads thread) (state.mutexes mutex)
  waitsOnce : ∀ mutex, (state.mutexes mutex).waitingThreads.Nodup
  locksOnce : ∀ thread, (state.threads thread).locks.Nodup
  queued : (state.threads defaultThread).maskedFromScheduler = true →
    defaultThread ∉ state.queuedThreads
  pending : state.activeThread = some defaultThread →
    (state.threads defaultThread).maskedFromScheduler = true →
    state.pendSV = true

structure Calm (before after : State) : Prop where
  locks : ∀ thread, (after.threads thread).locks = (before.threads thread).locks
  acquiring : ∀ thread, (after.threads thread).acquiring = (before.threads thread).acquiring
  masked : ∀ thread, (before.threads thread).acquiring ≠ none ∨ thread = defaultThread →
    (after.threads thread).maskedFromScheduler = (before.threads thread).maskedFromScheduler

namespace Calm
variable {first middle last : State} {thread : ThreadId}

theorem of_threads (same : last.threads = first.threads) : Calm first last :=
  ⟨fun _ => by rw [same], fun _ => by rw [same], fun _ _ => by rw [same]⟩

theorem trans (earlier : Calm first middle) (later : Calm middle last) : Calm first last where
  locks thread := (later.locks thread).trans (earlier.locks thread)
  acquiring thread := (later.acquiring thread).trans (earlier.acquiring thread)
  masked thread concerns := by
    refine (later.masked thread ?_).trans (earlier.masked thread concerns)
    rw [earlier.acquiring]
    exact concerns

theorem update {value : Thread}
    (threads : last.threads = Function.update first.threads thread value)
    (locks : value.locks = (first.threads thread).locks)
    (acquiring : value.acquiring = (first.threads thread).acquiring)
    (masked : (first.threads thread).acquiring ≠ none ∨ thread = defaultThread →
      value.maskedFromScheduler = (first.threads thread).maskedFromScheduler) :
      Calm first last := by
  refine ⟨fun other => ?_, fun other => ?_, fun other concerns => ?_⟩
  · rw [threads, update_field Thread.locks locks]
  · rw [threads, update_field Thread.acquiring acquiring]
  · rw [threads]
    by_cases same : other = thread
    · subst same
      rw [Function.update_self, masked concerns]
    · rw [Function.update_of_ne same]

end Calm

private theorem Valid.next_outside {state : State} (valid : Valid state) :
    (state.threads state.next).locks = [] ∧ (state.threads state.next).acquiring = none ∧
    state.next ≠ defaultThread := by
  have unborn : (state.threads state.next).point = .unborn :=
    (valid.sound state.next).born.mp (decide_eq_false (Nat.lt_irrefl _))
  have ⟨locks, acquiring⟩ := @Valid.outside state valid state.next (by rw [unborn]; rfl)
  refine ⟨locks, acquiring, fun same => ?_⟩
  have large := valid.order.born
  rw [same] at large
  cases large

theorem Valid.plain {state : State} (valid : Valid state) {thread : ThreadId}
    (fits : (state.threads thread).point.fits .default = false) : thread ≠ defaultThread := by
  intro same
  subst same
  have fit := (valid.sound defaultThread).fits
  rw [State.view_thread, show (state.view defaultThread).role = .default from rfl, fits] at fit
  cases fit

private theorem State.putAway_calm (entry : State) : Calm entry entry.putAway := by
  unfold putAway saved
  split
  · exact .of_threads rfl
  · split
    · split
      · exact .update rfl rfl rfl fun _ => rfl
      · exact .of_threads rfl
    · split
      · exact .update rfl rfl rfl fun _ => rfl
      · exact .of_threads rfl

private theorem State.resumed_calm {state : State} {chosen : ThreadId}
    {registers : FullRegisterContext} :
    Calm state (state.resumed chosen registers) := .update rfl rfl rfl fun _ => rfl

private theorem Dispatched.calm {entry after : State} (dispatched : Dispatched entry after) :
    Calm entry after := by
  refine entry.putAway_calm.trans ?_
  obtain ⟨registers, rests, rfl⟩ | ⟨chosen, rest, registers, settled, queue, rfl⟩ := dispatched
  · have idled : Calm entry.putAway entry.putAway.idled := .update rfl rfl rfl fun _ => rfl
    exact idled.trans State.resumed_calm
  · have taken : Calm entry.putAway ({ entry.putAway with queuedThreads := rest, activeThread := some chosen } : State) :=
      .of_threads rfl
    exact taken.trans State.resumed_calm

private theorem State.woken_calm {state : State} {thread : ThreadId}
    (masked : (state.threads thread).maskedFromScheduler = true →
      (state.threads thread).acquiring = none ∧ thread ≠ defaultThread) :
    Calm state (state.woken thread) := by
  unfold woken
  split
  · refine .update rfl rfl rfl fun concerns => ?_
    have ⟨idle, other⟩ := masked ‹_›
    exact concerns.elim (fun acquires => absurd idle acquires) fun same => absurd same other
  · exact .of_threads rfl

/-- Nothing but the mutex makes a blocked thread run: no supervisor call comes in while the
SystemHandler thread waits for a mutex, and no thread in the ready queue blocks. -/
def State.respectsBlocked (state : State) : SystemEvent → Prop
  | .thread _ .svc =>
      ∀ handler ∈ state.systemHandler, handler ∉ (state.mutexes .malloc).waitingThreads ∧
      handler ∉ (state.mutexes .pageAllocator).waitingThreads
  | .thread thread (.lock mutex) =>
      (state.mutexes mutex).holdingThread ≠ none → thread ∉ state.queuedThreads
  | _ => True

/-- Mutexes are not locked recursively. -/
def State.locksOnce (state : State) : SystemEvent → Prop
  | .thread thread (.lock mutex) => mutex ∉ (state.threads thread).locks
  | _ => True

instance (state : State) (event : SystemEvent) : Decidable (state.respectsBlocked event) := by
  refine @SystemEvent.casesOn (fun event => Decidable (state.respectsBlocked event)) event
    instDecidableTrue instDecidableTrue fun thread step => ?_
  apply @ThreadStep.casesOn (fun step => Decidable (state.respectsBlocked (.thread thread step)))
    step <;> intros <;> first
    | exact instDecidableTrue
    | exact inferInstanceAs (Decidable (∀ handler ∈ state.systemHandler, _))
    | exact inferInstanceAs (Decidable (_ → _))

instance (state : State) (event : SystemEvent) : Decidable (state.locksOnce event) := by
  refine @SystemEvent.casesOn (fun event => Decidable (state.locksOnce event)) event
    instDecidableTrue instDecidableTrue fun thread step => ?_
  apply @ThreadStep.casesOn (fun step => Decidable (state.locksOnce (.thread thread step))) step <;>
    intros <;> first
    | exact instDecidableTrue
    | exact inferInstanceAs (Decidable (_ ∉ _))

private theorem Valid.entered_calm {state entry : State} (valid : Valid state)
    (exclusive : Exclusive state) {event : SystemEvent}
    (permitted : state.permitted event) (respects : state.respectsBlocked event)
    (entered : Entered state entry event) :
    Calm state entry := by
  obtain ⟨active, running, rfl⟩ | ⟨thread, handler, running, suspended⟩ := entered
  · exact .update rfl rfl rfl fun _ => rfl
  · have ⟨_, _, _, acquiring, user⟩ := permitted
    have user : (state.threads thread).point = .userMode := user
    have plain : thread ≠ defaultThread := by
      intro same
      have fits := (valid.sound thread).fits
      rw [State.view_thread, user] at fits
      have role : state.role thread = .ordinary := of_decide_eq_true fits
      rw [same] at role
      cases role
    have parked : Calm state (state.suspended thread) :=
      .update rfl rfl rfl fun concerns =>
        concerns.elim (fun acquires => absurd acquiring acquires) fun same => absurd same plain
    have ⟨large, _⟩ := valid.order.handler handler suspended.serves
    rw [suspended.same]
    refine parked.trans (State.woken_calm fun masked => ⟨?_,
      fun same => absurd (same ▸ large) (by decide)⟩)
    rw [parked.acquiring]
    by_contra acquires
    obtain ⟨mutex, acquires⟩ := Option.ne_none_iff_exists'.mp acquires
    obtain ⟨_, awake⟩ | waits := (exclusive.each handler mutex).enters acquires
    · rw [parked.masked handler (Or.inl (by rw [acquires]; nofun)), awake] at masked
      cases masked
    · have ⟨malloc, pageAllocator⟩ := respects handler suspended.serves
      cases mutex with
      | malloc => exact malloc waits
      | pageAllocator => exact pageAllocator waits

private theorem Valid.touches_calm {state : State} (valid : Valid state) {thread other : ThreadId}
    {step : ThreadStep} {value : Thread}
    (touches : state.Touches thread step other value) : value.locks = (state.threads other).locks ∧
      value.acquiring = (state.threads other).acquiring ∧
        ((state.threads other).acquiring ≠ none ∨ other = defaultThread →
          value.maskedFromScheduler = (state.threads other).maskedFromScheduler) := by
  cases touches with
  | destroys victim ended =>
    obtain ⟨locks, acquiring⟩ :=
      @Valid.outside state valid other (ProgramPoint.ends_excludes ended).2.1
    have plain : other ≠ defaultThread := by
      rintro rfl
      obtain role | role := ProgramPoint.fits_ends (valid.sound defaultThread).fits
        ended <;> cases role
    exact ⟨locks.symm, acquiring.symm,
      fun concerns => absurd concerns (not_or.mpr ⟨not_not.mpr acquiring, plain⟩)⟩
  | createsHandler | creates =>
    obtain ⟨locks, acquiring, plain⟩ := valid.next_outside
    exact ⟨locks.symm, acquiring.symm,
      fun concerns => absurd concerns (not_or.mpr ⟨not_not.mpr acquiring, plain⟩)⟩
  | setsUpHandler | setsUp | stores => exact ⟨rfl, rfl, fun _ => rfl⟩
  | unmasks caller user =>
    obtain ⟨_, acquiring⟩ := @Valid.outside state valid other (by rw [user]; rfl)
    have plain := valid.plain (show (state.threads other).point.fits .default = false by rw [user]; rfl)
    exact ⟨rfl, rfl, fun concerns => absurd concerns (not_or.mpr ⟨not_not.mpr acquiring, plain⟩)⟩

private theorem Valid.alters_calm {state : State} (valid : Valid state) {thread : ThreadId}
    {step : ThreadStep} {value : Thread}
    (permitted : state.permitted (.thread thread step)) (other : step.locking = false)
    (alters : state.Alters thread step value)
    (concerns : (state.threads thread).acquiring ≠ none ∨ thread = defaultThread) :
    value.maskedFromScheduler = (state.threads thread).maskedFromScheduler := by
  have idle (acquiring : (state.threads thread).acquiring = none)
    (fits : (state.threads thread).point.fits .default = false) : False :=
    concerns.elim (fun acquires => acquires acquiring) fun same => valid.plain fits same
  rcases alters.masked with same | ⟨locks, -⟩ | ⟨rfl, -⟩ | ⟨captured, rfl⟩
  · exact same
  · rw [other] at locks
    cases locks
  · obtain ⟨_, _, _, acquiring, point⟩ := permitted
    exact (idle acquiring (by rw [point]; rfl)).elim
  · obtain ⟨_, _, _, acquiring, point⟩ := permitted
    exact (idle acquiring (by rw [point]; rfl)).elim

private theorem Valid.step_calm {state after : State} (valid : Valid state) {thread : ThreadId}
    {step : ThreadStep}
    (permitted : state.permitted (.thread thread step)) (other : step.locking = false)
    (executed : state.step thread step = .ok after) : Calm state after := by
  have calls : step ≠ .svc := by
    rintro rfl
    cases other
  have unlocks (mutex : MutexId) : step ≠ .unlock mutex := by
    rintro rfl
    cases other
  have effect := valid.step_effect permitted executed calls unlocks
  have each (target : ThreadId) : (after.threads target).locks = (state.threads target).locks ∧
      (after.threads target).acquiring = (state.threads target).acquiring ∧
        ((state.threads target).acquiring ≠ none ∨ target = defaultThread →
          (after.threads target).maskedFromScheduler = (state.threads target).maskedFromScheduler) := by
    by_cases mine : target = thread
    · subst mine
      obtain ⟨locks, acquiring⟩ := effect.alters.sections other
      exact ⟨locks, acquiring, valid.alters_calm permitted other effect.alters⟩
    · rcases effect.others mine with ⟨-, same⟩ | touches
      · rw [same]
        exact ⟨rfl, rfl, fun _ => rfl⟩
      · exact valid.touches_calm touches
  exact ⟨fun target => (each target).1, fun target => (each target).2.1,
    fun target => (each target).2.2⟩

theorem Exclusive.calm {state after : State} (exclusive : Exclusive state) (calm : Calm state after)
    (mutexes : ∀ mutex, (after.mutexes mutex).holdingThread = (state.mutexes mutex).holdingThread ∧
      (after.mutexes mutex).waitingThreads = (state.mutexes mutex).waitingThreads)
    (queued : (state.threads defaultThread).maskedFromScheduler = true →
      defaultThread ∉ after.queuedThreads)
    (pending : after.activeThread = some defaultThread →
      (state.threads defaultThread).maskedFromScheduler = true →
      after.pendSV = true) : Exclusive after := by
  have default := calm.masked defaultThread (Or.inr rfl)
  refine ⟨fun thread mutex => ?_, fun mutex => ?_, fun thread => ?_, fun masked => ?_,
    fun active masked => ?_⟩
  · have ⟨holding, waiting⟩ := mutexes mutex
    have ⟨holds, enters, waits, apart⟩ := exclusive.each thread mutex
    have awake : (state.threads thread).acquiring = some mutex →
      (after.threads thread).maskedFromScheduler =
        (state.threads thread).maskedFromScheduler :=
          fun acquires => calm.masked thread (Or.inl (by rw [acquires]; nofun))
    refine ⟨fun inside => ?_, fun acquires => ?_, fun waiter => ?_, fun acquires => ?_⟩
    · rw [holding]
      exact holds (calm.locks thread ▸ inside)
    · rw [calm.acquiring] at acquires
      rw [holding, waiting, awake acquires]
      exact enters acquires
    · rw [waiting] at waiter
      have ⟨acquires, masked⟩ := waits waiter
      rw [calm.acquiring, awake acquires]
      exact ⟨acquires, masked⟩
    · rw [calm.acquiring] at acquires
      rw [calm.locks]
      exact apart acquires
  · rw [(mutexes mutex).2]
    exact exclusive.waitsOnce mutex
  · rw [calm.locks]
    exact exclusive.locksOnce thread
  · exact queued (default.symm.trans masked)
  · exact pending active (default.symm.trans masked)

/-- What a switch leaves in the ready queue was ready before, and the chosen thread is awake. -/
theorem Valid.exclusive_switch {state after : State} (valid : Valid state) {event : SystemEvent}
    (permitted : state.permitted event) (schedules : event.schedules = true)
    (executed : state.execute event = .ok after)
    (respects : state.respectsBlocked event) (exclusive : Exclusive state) : Exclusive after := by
  obtain ⟨entry, entered, sound, dispatched⟩ := valid.dispatches permitted schedules executed
  have entering := valid.entered_calm exclusive permitted respects entered
  have calm := entering.trans dispatched.calm
  have switched : after.mutexes = state.mutexes := by
    cases event with
    | tick => cases schedules
    | pendSV => exact (Switches.schedulerNext.value executed).mutexes
    | thread thread step =>
      cases step with
      | svc => exact (Switches.syscall.value executed).mutexes
      | _ => cases schedules
  have awake (masked : (state.threads defaultThread).maskedFromScheduler = true) :
      defaultThread ∉ entry.putAway.queuedThreads := by
    intro queued
    obtain queued | ⟨-, plain⟩ := State.putAway_member queued
    · obtain ⟨active, running, rfl⟩ | ⟨thread, handler, running, suspended⟩ := entered
      · exact exclusive.queued masked queued
      · rw [suspended.same] at queued
        obtain queued | same := State.woken_member queued
        · exact exclusive.queued masked queued
        · have large := (valid.order.handler handler suspended.serves).1
          rw [← same.1] at large
          cases large
    · have flag := (sound defaultThread).flag.mpr (Or.inl rfl)
      rw [State.view_thread, plain] at flag
      cases flag
  refine exclusive.calm calm (fun _ => by rw [switched]; exact ⟨rfl, rfl⟩)
    (fun masked queued => awake masked (dispatched.queued queued)) fun active masked => ?_
  obtain ⟨registers, rests, rfl⟩ | ⟨chosen, rest, registers, settled, queue, rfl⟩ := dispatched
  · have idle : entry.putAway.idleThread = defaultThread := Option.some.inj active
    have asleep : (entry.putAway.threads defaultThread).maskedFromScheduler = true := by
      rw [State.putAway_masked, entering.masked defaultThread (Or.inr rfl)]
      exact masked
    unfold State.idleThread at idle
    rw [if_pos asleep] at idle
    cases idle
  · obtain rfl : chosen = defaultThread := Option.some.inj active
    exact absurd (by rw [queue]; exact List.mem_cons_self) (awake masked)

structure Local (before after : State) (thread : ThreadId) (mutex : MutexId) (value : Thread)
    (content : KernelMutex) : Prop where
  own : after.threads thread = value
  others : ∀ other, other ≠ thread → after.threads other = before.threads other
  changed : after.mutexes mutex = content
  kept : ∀ key, key ≠ mutex → after.mutexes key = before.mutexes key

theorem Exclusive.change {state after : State} {thread : ThreadId} {mutex : MutexId}
    {value : Thread} {content : KernelMutex}
    (exclusive : Exclusive state) (change : Local state after thread mutex value content)
    (here : Excludes thread mutex value content)
    (elsewhere : ∀ key, key ≠ mutex → Excludes thread key value (state.mutexes key))
    (others : ∀ other, other ≠ thread → Excludes other mutex (state.threads other) content)
    (waitsOnce : content.waitingThreads.Nodup) (locksOnce : value.locks.Nodup)
    (queued : (after.threads defaultThread).maskedFromScheduler = true →
      defaultThread ∉ after.queuedThreads)
    (pending : after.activeThread = some defaultThread →
      (after.threads defaultThread).maskedFromScheduler = true →
      after.pendSV = true) : Exclusive after := by
  obtain ⟨own, same, changed, kept⟩ := change
  refine ⟨fun other key => ?_, fun key => ?_, fun other => ?_, queued, pending⟩
  · by_cases target : other = thread
    · subst target
      rw [own]
      by_cases place : key = mutex
      · subst place
        rw [changed]
        exact here
      · rw [kept key place]
        exact elsewhere key place
    · rw [same other target]
      by_cases place : key = mutex
      · subst place
        rw [changed]
        exact others other target
      · rw [kept key place]
        exact exclusive.each other key
  · by_cases place : key = mutex
    · subst place
      rw [changed]
      exact waitsOnce
    · rw [kept key place]
      exact exclusive.waitsOnce key
  · by_cases target : other = thread
    · subst target
      rw [own]
      exact locksOnce
    · rw [same other target]
      exact exclusive.locksOnce other

namespace Exclusive
variable {state : State} {thread : ThreadId} {mutex : MutexId}

theorem awake (exclusive : Exclusive state) (settled : state.pendSV = false)
    (running : state.activeThread = some defaultThread) :
    (state.threads defaultThread).maskedFromScheduler = false := by
  apply Bool.eq_false_iff.mpr
  intro masked
  rw [exclusive.pending running masked] at settled
  cases settled

private theorem acquired (exclusive : Exclusive state)
    (free : (state.mutexes mutex).holdingThread = none)
    (acquiring : (state.threads thread).acquiring = none) :
    Exclusive (state.acquired thread mutex) := by
  have masked : ((state.acquired thread mutex).threads defaultThread).maskedFromScheduler =
      (state.threads defaultThread).maskedFromScheduler :=
        update_field Thread.maskedFromScheduler rfl
  have change : Local state (state.acquired thread mutex) thread mutex _ _ :=
    ⟨Function.update_self .., fun other differs => Function.update_of_ne differs ..,
      Function.update_self ..,
      fun key differs => Function.update_of_ne differs ..⟩
  have outside := fun other key => exclusive.each other key
  have unlocked : mutex ∉ (state.threads thread).locks := fun inside =>
    nomatch free.symm.trans ((exclusive.each thread mutex).holds inside)
  refine exclusive.change change ?_ (fun key differs => ?_) (fun other differs => ?_)
    (exclusive.waitsOnce mutex)
    (List.nodup_cons.mpr ⟨unlocked, exclusive.locksOnce thread⟩) (fun asleep => ?_)
      fun active asleep => ?_
  · refine ⟨fun _ => rfl, nofun, fun waits => ?_, nofun⟩
    exact nomatch acquiring.symm.trans ((exclusive.each thread mutex).waits waits).1
  · have ⟨holds, enters, waits, apart⟩ := exclusive.each thread key
    refine ⟨fun inside => holds ((List.mem_cons.mp inside).resolve_left differs), nofun,
      fun waiter => ?_, nofun⟩
    exact nomatch acquiring.symm.trans (waits waiter).1
  · have ⟨holds, enters, waits, apart⟩ := exclusive.each other mutex
    refine ⟨fun inside => (nomatch free.symm.trans (holds inside)),
      fun acquires => Or.inr ?_, waits, apart⟩
    exact (enters acquires).resolve_left fun held => nomatch free.symm.trans held.1
  · exact exclusive.queued (masked ▸ asleep)
  · exact exclusive.pending active (masked ▸ asleep)

private theorem blocked (exclusive : Exclusive state)
    (acquiring : (state.threads thread).acquiring = none)
    (unlocked : mutex ∉ (state.threads thread).locks)
    (absent : thread ∉ state.queuedThreads) :
    Exclusive { state.blocked thread mutex with pendSV := true } := by
  have change : Local state { state.blocked thread mutex with pendSV := true } thread mutex _ _ :=
    ⟨Function.update_self .., fun other differs => Function.update_of_ne differs ..,
      Function.update_self ..,
      fun key differs => Function.update_of_ne differs ..⟩
  have waiting : thread ∉ (state.mutexes mutex).waitingThreads := fun waits =>
    nomatch acquiring.symm.trans ((exclusive.each thread mutex).waits waits).1
  refine exclusive.change change ?_ (fun key differs => ?_) (fun other differs => ?_) ?_
    (exclusive.locksOnce thread)
    (fun asleep => ?_) fun _ _ => rfl
  · exact ⟨fun inside => absurd inside unlocked,
      fun _ => Or.inr (List.mem_append_right _ (List.mem_singleton_self _)),
      fun _ => ⟨rfl, rfl⟩, fun _ => unlocked⟩
  · have ⟨holds, enters, waits, apart⟩ := exclusive.each thread key
    have other : some mutex ≠ some key := fun same => differs (Option.some.inj same).symm
    refine ⟨holds, fun same => absurd same other, fun waiter => ?_, fun same => absurd same other⟩
    exact nomatch acquiring.symm.trans (waits waiter).1
  · have ⟨holds, enters, waits, apart⟩ := exclusive.each other mutex
    refine ⟨holds, fun acquires => (enters acquires).imp id (List.mem_append_left _),
      fun waiter => ?_, apart⟩
    exact waits ((List.mem_append.mp waiter).resolve_right fun last => differs (List.mem_singleton.mp last))
  · exact (List.perm_append_singleton thread _).nodup_iff.mpr
      (List.nodup_cons.mpr ⟨waiting, exclusive.waitsOnce mutex⟩)
  · by_cases same : defaultThread = thread
    · rw [same]
      exact absent
    · rw [change.others defaultThread same] at asleep
      exact exclusive.queued asleep

theorem handed (exclusive : Exclusive state)
    (acquiring : (state.threads thread).acquiring = some mutex)
    (unmasked : (state.threads thread).maskedFromScheduler = false) :
    (state.mutexes mutex).holdingThread = some thread ∧
    thread ∉ (state.mutexes mutex).waitingThreads := by
  have here := exclusive.each thread mutex
  have absent : thread ∉ (state.mutexes mutex).waitingThreads := by
    intro waits
    rw [(here.waits waits).2] at unmasked
    cases unmasked
  exact ⟨((here.enters acquiring).resolve_right absent).1, absent⟩

private theorem entered (exclusive : Exclusive state)
    (acquiring : (state.threads thread).acquiring = some mutex)
    (unmasked : (state.threads thread).maskedFromScheduler = false) :
    Exclusive (state.enter thread mutex) := by
  have masked : ((state.enter thread mutex).threads defaultThread).maskedFromScheduler =
      (state.threads defaultThread).maskedFromScheduler :=
        update_field Thread.maskedFromScheduler rfl
  have change : Local state (state.enter thread mutex) thread mutex _ (state.mutexes mutex) :=
    ⟨Function.update_self .., fun other differs => Function.update_of_ne differs .., rfl,
      fun _ _ => rfl⟩
  have here := exclusive.each thread mutex
  have ⟨held, absent⟩ := exclusive.handed acquiring unmasked
  refine exclusive.change change ?_ (fun key differs => ?_)
    (fun other differs => exclusive.each other mutex)
    (exclusive.waitsOnce mutex) (List.nodup_cons.mpr ⟨here.apart acquiring,
      exclusive.locksOnce thread⟩) (fun asleep => ?_)
    fun active asleep => ?_
  · exact ⟨fun _ => held, nofun, fun waits => absurd waits absent, nofun⟩
  · have ⟨holds, enters, waits, apart⟩ := exclusive.each thread key
    refine ⟨fun inside => holds ((List.mem_cons.mp inside).resolve_left differs), nofun,
      fun waiter => ?_, nofun⟩
    exact absurd (Option.some.inj (acquiring.symm.trans (waits waiter).1)).symm differs
  · exact exclusive.queued (masked ▸ asleep)
  · exact exclusive.pending active (masked ▸ asleep)

private theorem released (exclusive : Exclusive state)
    (inside : mutex ∈ (state.threads thread).locks)
    (acquiring : (state.threads thread).acquiring = none) :
    Exclusive ((state.dropped thread mutex).released mutex) := by
  have held := (exclusive.each thread mutex).holds inside
  have mutexes := @State.unlocked_mutexes state thread mutex
  have explicit : (state.dropped thread mutex).released mutex =
    ((state.dropped thread mutex).modify thread fun value =>
      { value with refcount := value.refcount - 1 }).setMutex mutex { state.mutexes
        mutex with holdingThread := none } := by
    unfold State.released
    rw [show ((state.dropped thread mutex).mutexes mutex).holdingThread = some thread from held]
    rfl
  have change : Local state ((state.dropped thread mutex).released mutex) thread mutex
      { state.threads thread with
        refcount := (state.threads thread).refcount - 1,
          locks := (state.threads thread).locks.erase mutex }
      { state.mutexes mutex with holdingThread := none } := by
    rw [explicit]
    refine ⟨?_, fun other differs => ?_, Function.update_self ..,
      fun key differs => Function.update_of_ne differs ..⟩
    · simp [State.dropped]
    · simp [State.dropped, differs]
  have masked : (((state.dropped thread mutex).released mutex).threads defaultThread).maskedFromScheduler =
      (state.threads defaultThread).maskedFromScheduler := State.unlocked_masked defaultThread
  have queue : ((state.dropped thread mutex).released mutex).queuedThreads = state.queuedThreads :=
    State.released_queued
  have runs : ((state.dropped thread mutex).released mutex).activeThread = state.activeThread :=
    State.released_active mutex
  have pends : ((state.dropped thread mutex).released mutex).pendSV = state.pendSV :=
    State.released_pendSV
  refine exclusive.change change ?_ (fun key differs => ?_) (fun other differs => ?_)
    (exclusive.waitsOnce mutex)
    ((exclusive.locksOnce thread).erase mutex) (fun asleep => ?_) fun active asleep => ?_
  · refine ⟨fun still => absurd still (exclusive.locksOnce thread).not_mem_erase,
      fun acquires => ?_, fun waiter => ?_,
      fun acquires => ?_⟩
    · cases acquiring.symm.trans acquires
    · cases acquiring.symm.trans ((exclusive.each thread mutex).waits waiter).1
    · cases acquiring.symm.trans acquires
  · obtain ⟨holds, enters, waits, apart⟩ := exclusive.each thread key
    refine ⟨fun still => holds (List.mem_of_mem_erase still), enters, waits, fun acquires => ?_⟩
    cases acquiring.symm.trans acquires
  · obtain ⟨holds, enters, waits, apart⟩ := exclusive.each other mutex
    have foreign : (state.mutexes mutex).holdingThread ≠ some other := fun same =>
      differs (Option.some.inj (held.symm.trans same)).symm
    exact ⟨fun inside => absurd (holds inside) foreign,
      fun acquires => Or.inr ((enters acquires).resolve_left fun held => foreign held.1), waits, apart⟩
  · rw [queue]
    exact exclusive.queued (masked ▸ asleep)
  · rw [pends]
    exact exclusive.pending (runs ▸ active) (masked ▸ asleep)

private theorem inherited (exclusive : Exclusive state) {next : ThreadId} {rest : List ThreadId}
    (free : (state.mutexes mutex).holdingThread = none)
    (waiting : (state.mutexes mutex).waitingThreads = next :: rest) :
    Exclusive (state.inherited mutex next rest) := by
  have member : next ∈ (state.mutexes mutex).waitingThreads := by
    rw [waiting]
    exact List.mem_cons_self
  have ⟨acquires, masked⟩ := (exclusive.each next mutex).waits member
  have once := exclusive.waitsOnce mutex
  rw [waiting] at once
  have ⟨absent, restOnce⟩ := List.nodup_cons.mp once
  have explicit : state.inherited mutex next rest =
      { (state.setMutex mutex { state.mutexes mutex with holdingThread := some next, waitingThreads := rest }).modify next
          fun value => { value with refcount := value.refcount + 1, maskedFromScheduler := false } with
        queuedThreads := state.queuedThreads ++ [next] } := by
    unfold State.inherited State.woken
    rw [if_pos (by exact masked)]
    rfl
  have change : Local state (state.inherited mutex next rest) next mutex
      { state.threads next with refcount := (state.threads next).refcount + 1, maskedFromScheduler := false }
      { state.mutexes mutex with holdingThread := some next, waitingThreads := rest } := by
    rw [explicit]
    exact ⟨Function.update_self .., fun other differs => Function.update_of_ne differs ..,
      Function.update_self ..,
      fun key differs => Function.update_of_ne differs ..⟩
  have differs (asleep : ((state.inherited mutex next rest).threads defaultThread).maskedFromScheduler = true) :
      defaultThread ≠ next := by
    intro same
    rw [same, change.own] at asleep
    cases asleep
  refine exclusive.change change ?_ (fun key apart => ?_) (fun other apart => ?_) restOnce
    (exclusive.locksOnce next)
    (fun asleep queued => ?_) fun active asleep => ?_
  · exact ⟨fun _ => rfl, fun _ => Or.inl ⟨rfl, rfl⟩, fun waiter => absurd waiter absent,
      (exclusive.each next mutex).apart⟩
  · have ⟨holds, enters, waits, unlocked⟩ := exclusive.each next key
    have foreign : (state.threads next).acquiring ≠ some key := fun same =>
      apart (Option.some.inj (acquires.symm.trans same)).symm
    exact ⟨holds, fun same => absurd same foreign, fun waiter => absurd (waits waiter).1 foreign,
      fun same => absurd same foreign⟩
  · have ⟨holds, enters, waits, unlocked⟩ := exclusive.each other mutex
    refine ⟨fun inside => (nomatch free.symm.trans (holds inside)), fun same => Or.inr ?_,
      fun waiter => waits ?_, unlocked⟩
    · have waiter := (enters same).resolve_left fun held => nomatch free.symm.trans held.1
      rw [waiting] at waiter
      exact (List.mem_cons.mp waiter).resolve_left apart
    · rw [waiting]
      exact List.mem_cons_of_mem _ waiter
  · have other := differs asleep
    rw [change.others defaultThread other] at asleep
    rw [explicit] at queued
    obtain queued | last := List.mem_append.mp queued
    · exact exclusive.queued asleep queued
    · exact other (List.mem_singleton.mp last)
  · rw [change.others defaultThread (differs asleep)] at asleep
    rw [explicit] at active ⊢
    exact exclusive.pending active asleep

end Exclusive

private theorem State.step_active {state after : State} {thread : ThreadId} {step : ThreadStep}
    (other : step.locking = false)
    (executed : state.step thread step = .ok after) : after.activeThread = state.activeThread := by
  cases step with
  | lock | lockReturn | unlock | svc => cases other
  | enable | constructHandler =>
    cases executed
    rfl
  | pollDangling =>
    obtain ⟨-, rfl⟩ | ⟨victim, rest, -, rfl⟩ := State.pollDangling_yields.value executed
    · rfl
    · rfl
  | clearDangling victim =>
    obtain rfl := State.clearDangling_yields.value executed
    rfl
  | takeWaiting =>
    obtain ⟨caller, rest, -, rfl⟩ := State.takeWaiting_yields.value executed
    rfl
  | enqueueChild child =>
    obtain rfl := State.addThread_yields.value executed
    rfl
  | requeueCaller caller =>
    obtain rfl := State.addThread_yields.value executed
    rfl
  | _ => exact ((State.step_kept rfl).value executed).active

namespace Valid
variable {state after : State} {thread : ThreadId}

private theorem exclusive_other {step : ThreadStep} (valid : Valid state)
    (permitted : state.permitted (.thread thread step))
    (other : step.locking = false) (executed : state.step thread step = .ok after)
    (exclusive : Exclusive state) :
    Exclusive after := by
  have ⟨settled, running, may⟩ := permitted
  have spares : ¬state.wakesDefault (.thread thread step) := by
    cases step with
    | unlock mutex => cases other
    | _ => exact id
  refine exclusive.calm (valid.step_calm permitted other executed) (fun mutex => ?_)
    (fun masked => ?_) fun active masked => ?_
  · have change := valid.step_change permitted executed mutex
    cases change with
    | untouched apart holding waiting => exact ⟨holding, waiting⟩
    | acquired | blocked | released | handed => cases other
  · exact valid.absent_step permitted executed spares (exclusive.queued masked)
  · rw [State.step_active other executed] at active
    rw [exclusive.awake settled active] at masked
    cases masked

private theorem exclusive_step {event : SystemEvent} (valid : Valid state)
    (permitted : state.permitted event)
    (executed : state.execute event = .ok after) (once : state.locksOnce event)
    (respects : state.respectsBlocked event)
    (exclusive : Exclusive state) : Exclusive after := by
  cases event with
  | tick =>
    obtain rfl := Except.ok.inj executed
    unfold State.isrSystick
    split
    · refine exclusive.calm (.of_threads rfl) (fun _ => ⟨rfl, rfl⟩) exclusive.queued fun _ _ => rfl
    · exact exclusive
  | pendSV => exact valid.exclusive_switch permitted rfl executed respects exclusive
  | thread thread step =>
    have ⟨settled, running, may⟩ := permitted
    cases step with
    | svc => exact valid.exclusive_switch permitted rfl executed respects exclusive
    | lock mutex =>
      have change := valid.step_change permitted executed mutex
      cases change with
      | untouched apart => exact absurd rfl (apart thread).1
      | acquired _ free same => exact same ▸ exclusive.acquired free may.2
      | blocked _ held same => exact same ▸ exclusive.blocked may.2 once (respects held)
    | lockReturn mutex =>
      cases executed
      have acquiring : (state.threads thread).acquiring = some mutex := may
      refine exclusive.entered acquiring ?_
      by_cases default : thread = defaultThread
      · subst default
        exact exclusive.awake settled running
      · have allocates := (valid.sound thread).locks
          (Or.inr (by rw [State.view_thread, acquiring]; nofun))
        exact valid.awake running settled allocates default
    | unlock mutex =>
      have released := exclusive.released may.1 may.2
      have change := valid.step_change permitted executed mutex
      cases change with
      | untouched apart => exact absurd rfl (apart thread).2
      | released _ none same => exact same ▸ released
      | handed _ next rest waiting differs same =>
        rw [same]
        refine released.inherited ?_ ?_
        · rw [State.unlocked_mutexes, Function.update_self]
        · rw [State.unlocked_mutexes, Function.update_self]
          exact waiting
    | _ => exact valid.exclusive_other permitted rfl executed exclusive

end Valid

private theorem boot_exclusive {stack : ThreadId → PageRange}
    {context : ThreadId → FullRegisterContext} :
    Exclusive (State.boot stack context) := by
  have outside (thread : ThreadId) : ((State.boot stack context).threads thread).locks = [] ∧
      ((State.boot stack context).threads thread).acquiring = none := by
    obtain rfl | rfl | rfl | rfl | large := boot_thread thread
    · exact ⟨rfl, rfl⟩
    · exact ⟨rfl, rfl⟩
    · exact ⟨rfl, rfl⟩
    · exact ⟨rfl, rfl⟩
    · rw [boot_unborn large]
      exact ⟨rfl, rfl⟩
  refine ⟨fun thread mutex => ⟨fun inside => ?_, fun acquires => ?_, fun waits => ?_,
    fun acquires => ?_⟩, fun _ => List.nodup_nil,
    fun thread => ?_, nofun, nofun⟩
  · rw [(outside thread).1] at inside
    cases inside
  · exact nomatch (outside thread).2.symm.trans acquires
  · exact (List.not_mem_nil waits).elim
  · exact nomatch (outside thread).2.symm.trans acquires
  · rw [(outside thread).1]
    exact List.nodup_nil

theorem mutual_exclusion {stack : ThreadId → PageRange} {context : ThreadId → FullRegisterContext}
    {state : State}
    {history : List (State × SystemEvent)}
    (run : State.machine.Run (State.boot stack context) history state)
    (once : ∀ entry ∈ history, entry.1.locksOnce entry.2)
    (respects : ∀ entry ∈ history, entry.1.respectsBlocked entry.2) :
    (∀ thread mutex, mutex ∈ (state.threads thread).locks →
      (state.mutexes mutex).holdingThread = some thread) ∧
      (∀ first last mutex, mutex ∈ (state.threads first).locks →
        mutex ∈ (state.threads last).locks → first = last) ∧
      ∀ thread mutex, state.permitted (.thread thread (.lockReturn mutex)) →
        (state.mutexes mutex).holdingThread = some thread := by
  have exclusive := run.invariant_under Exclusive
    (fun state event => state.locksOnce event ∧ state.respectsBlocked event) boot_exclusive
    (fun reachable earlier meets permitted executed =>
      (reachable_valid reachable).1.exclusive_step permitted executed meets.1 meets.2 earlier)
    fun entry member => ⟨once entry member, respects entry member⟩
  have holds := fun thread mutex => (exclusive.each thread mutex).holds
  refine ⟨holds, fun first last mutex inside also => ?_, fun thread mutex permitted => ?_⟩
  · exact Option.some.inj ((holds first mutex inside).symm.trans (holds last mutex also))
  · obtain ⟨valid, -⟩ := reachable_valid ⟨history, run⟩
    have ⟨settled, running, acquiring⟩ := permitted
    have acquiring : (state.threads thread).acquiring = some mutex := acquiring
    refine (exclusive.handed acquiring ?_).1
    by_cases default : thread = defaultThread
    · subst default
      exact exclusive.awake settled running
    · have allocates := (valid.sound thread).locks
        (Or.inr (by rw [State.view_thread, acquiring]; nofun))
      exact valid.awake running settled allocates default

theorem mutual_exclusion_meeting : ∃ state, State.machine.Reachable .bootPlain state ∧
    .malloc ∈ (state.threads 7).locks ∧ (state.mutexes .malloc).holdingThread = some 7 := by
  have played : ((State.machine.restrict fun state event => state.locksOnce event ∧
    state.respectsBlocked event).after .bootPlain
      (SystemEvent.startup ++ SystemEvent.destroys 3 ++ SystemEvent.meeting ++
        [.thread 6 (.unlock .malloc), .tick, .pendSV, .thread 7 (.lockReturn .malloc)])).map
      (fun state => (state.threads 7).locks) = some [.malloc] := by
    decide +kernel
  obtain ⟨state, executed, locks⟩ := Option.map_eq_some_iff.mp played
  obtain ⟨history, restricted⟩ := Machine.reachable_after executed
  obtain ⟨run, meets⟩ := restricted.unrestrict
  have inside : .malloc ∈ (state.threads 7).locks := by
    rw [locks]
    exact List.mem_singleton_self _
  have ⟨holds, _⟩ := mutual_exclusion run (fun entry member => (meets entry member).1)
    fun entry member =>
    (meets entry member).2
  exact ⟨state, ⟨history, run⟩, inside, holds 7 .malloc inside⟩

/-- The SystemHandler, thread 4, waits for the mutex that process 10 holds when process 11 calls the
kernel. -/
def SystemEvent.waking : List SystemEvent :=
  [.thread 10 (.lock .malloc), .tick, .pendSV, .thread 7 .svc, .thread 11 .handOver, .tick, .pendSV,
    .tick, .pendSV, .tick,
    .pendSV, .thread 4 .checkWaiting, .thread 4 .takeWaiting, .thread 4 (.readContext 7),
      .thread 4 (.lock .malloc), .pendSV,
    .thread 11 .svc, .tick, .pendSV, .tick, .pendSV, .thread 4 (.lockReturn .malloc)]

/-- Two threads are in the critical section of the heap. -/
theorem two_inside : ∃ history state, State.machine.Run .bootPlain history state ∧
    (∀ entry ∈ history, entry.1.locksOnce entry.2) ∧ .malloc ∈ (state.threads 10).locks ∧
      .malloc ∈ (state.threads 4).locks := by
  have played : ((State.machine.restrict State.locksOnce).after .bootPlain
      (SystemEvent.startup ++ SystemEvent.destroys 3 ++ SystemEvent.spawnRounds 2 [(5, true)] 6 ++ SystemEvent.waking)).map
      (fun state => ((state.threads 10).locks, (state.threads 4).locks)) =
        some ([.malloc], [.malloc]) := by
    decide +kernel
  obtain ⟨state, executed, shape⟩ := Option.map_eq_some_iff.mp played
  obtain ⟨first, last⟩ := Prod.mk.inj shape
  obtain ⟨history, restricted⟩ := Machine.reachable_after executed
  obtain ⟨run, once⟩ := restricted.unrestrict
  refine ⟨history, state, run, once, ?_, ?_⟩
  · rw [first]
    exact List.mem_singleton_self _
  · rw [last]
    exact List.mem_singleton_self _

end PicoOs.Kernel
