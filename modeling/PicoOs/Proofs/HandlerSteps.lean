import PicoOs.Proofs.ThreadPairs

/-! How the startup thread brings up the SystemHandler thread. -/

namespace PicoOs.Kernel
open Library

namespace State
variable {state : State} {thread : ThreadId}

theorem constructHandler_threads : (state.constructHandler thread).threads =
    Function.update (Function.update state.threads thread { state.threads thread with point := .startupHandler }) state.next
      { Thread.construct with privileged := true, maskedFromScheduler := true } := rfl

private theorem constructHandler_tally (point : (state.threads thread).point = .startupBegin)
    (kind : Hold) (counted : ThreadId) : (state.constructHandler thread).tally kind counted = state.tally kind counted := by
  have outer := held_succ (Function.update state.threads thread { state.threads thread with point := .startupHandler })
    state.next { Thread.construct with privileged := true, maskedFromScheduler := true } kind counted
  have inner := @held_update_same state.threads state.next thread
    { state.threads thread with point := .startupHandler }
    (by rw [Thread.holds, Thread.holds, point]; rfl)
  rw [inner] at outer
  exact congrArg (state.outside kind counted + ·) outer

private theorem constructHandler_sound (sound : state.Sound)
    (running : state.activeThread = some thread)
    (unlocked : (state.threads thread).locks = [])
    (acquiring : (state.threads thread).acquiring = none)
    (point : (state.threads thread).point = .startupBegin) (absent : state.systemHandler = none)
    (large : 4 ≤ state.next) :
    (state.constructHandler thread).Sound := by
  have born := active_born sound running
  have fits := (sound thread).fits
  rw [view_thread, point] at fits
  intro counted
  have tally : (fun kind => (state.constructHandler thread).tally kind counted) =
    (state.view counted).tally :=
    funext fun kind => constructHandler_tally point kind counted
  by_cases target : counted = state.next
  · subst target
    convert (sound state.next).spawnHandler (by simp [view]) using 1
    refine View.ext (Function.update_self ..) ?_ ?_ rfl rfl tally rfl rfl
    · change (state.constructHandler thread).role state.next = _
      rw [role_of_large large]
      exact if_pos rfl
    · exact decide_eq_true (Nat.lt_succ_self state.next)
  · have role : (state.constructHandler thread).role counted = state.role counted := by
      have other : some state.next ≠ some counted := fun same => target (Option.some.inj same).symm
      unfold State.role
      rw [absent]
      simp [constructHandler, spawn, other]
    by_cases same : counted = thread
    · subst same
      have own : Fine { state.view counted with thread := { state.threads counted with point := .startupHandler } } :=
        (sound counted).advance (by simp [view, running]) fits rfl (by rw [view_thread, point]; rfl) unlocked acquiring
          fun child => absurd ((sound counted).child child) (by rw [view_thread, point]; rintro ⟨⟩)
      convert own using 1
      refine View.ext ?_ role (born_succ target) rfl rfl tally rfl rfl
      rw [view_thread, constructHandler_threads, Function.update_of_ne target, Function.update_self]
    · convert sound counted using 1
      refine View.ext ?_ role (born_succ target) rfl rfl tally rfl rfl
      rw [view_thread, constructHandler_threads, Function.update_of_ne target,
        Function.update_of_ne same]
      rfl

end State

namespace Valid
variable {state : State} {thread : ThreadId} (valid : Valid state)
  (running : state.activeThread = some thread)
  (unlocked : (state.threads thread).locks = [])
  (acquiring : (state.threads thread).acquiring = none)
include valid running unlocked acquiring

theorem constructHandler (point : (state.threads thread).point = .startupBegin) :
    Valid (state.constructHandler thread) := by
  have startup : thread = startupThread := valid.order.starting thread (by rw [point]; rfl)
  have absent : state.systemHandler = none := valid.order.begin (startup ▸ point)
  have born := State.active_born valid.sound running
  have differs : thread ≠ state.next := Nat.ne_of_lt born
  have threads := @State.constructHandler_threads state thread
  have fresh : (state.constructHandler thread).threads state.next =
      { Thread.construct with privileged := true, maskedFromScheduler := true } := by
        rw [threads, Function.update_self]
  have own : (state.constructHandler thread).threads thread =
    { state.threads thread with point := .startupHandler } := by
    rw [threads, Function.update_of_ne differs, Function.update_self]
  have others : ∀ other, other ≠ thread → other ≠ state.next →
      (state.constructHandler thread).threads other = state.threads other := by
    intro other apart elsewhere
    rw [threads, Function.update_of_ne elsewhere, Function.update_of_ne apart]
  have sound := State.constructHandler_sound valid.sound running unlocked acquiring point absent
    valid.order.born
  refine ⟨sound, ?_, fun other => ?_, valid.active, fun other runs masked default => ?_,
    Or.inl (valid.opened running (by rw [point]; nofun))⟩
  · refine ⟨valid.order.born.trans (Nat.le_succ _), fun handler serves => ?_,
      fun other starts => ?_, fun begins => ?_,
      fun _ => ⟨state.next, rfl, congrArg Thread.point fresh⟩, fun other late => ?_⟩
    · obtain rfl := Option.some.inj serves
      exact ⟨valid.order.born, Nat.lt_succ_self _⟩
    · by_cases elsewhere : other = state.next
      · rw [elsewhere, fresh] at starts
        cases starts
      by_cases apart : other = thread
      · exact apart.trans startup
      · rw [others other apart elsewhere] at starts
        exact valid.order.starting other starts
    · rw [← startup, own] at begins
      cases begins
    · by_cases elsewhere : other = state.next
      · rw [elsewhere, fresh] at late
        cases late
      by_cases apart : other = thread
      · rw [apart, own] at late
        cases late
      · rw [others other apart elsewhere] at late
        obtain ⟨handler, serves, -⟩ := valid.order.late other late
        exact nomatch absent.symm.trans serves
  · by_cases elsewhere : other = state.next
    · rw [elsewhere, fresh]
      exact ⟨nofun, fun both => nomatch both.1⟩
    by_cases apart : other = thread
    · have saved := valid.contexts thread
      rw [point] at saved
      rw [apart, own]
      exact saved
    · rw [others other apart elsewhere]
      exact valid.contexts other
  · have apart : other = thread := Option.some.inj (Eq.trans (Eq.symm runs) running)
    subst apart
    rw [own] at masked ⊢
    have waits := valid.pending other running masked default
    rw [point] at waits
    exact waits

theorem setupHandler (point : (state.threads thread).point = .startupHandler) (stack : PageRange)
    (context : FullRegisterContext) :
    Yields (KernelFault.possible · = true) (state.setupHandler thread stack context) Valid := by
  have startup : thread = startupThread := valid.order.starting thread (by rw [point]; rfl)
  obtain ⟨handler, serves, fresh⟩ := valid.order.fresh (startup ▸ point)
  have born := State.active_born valid.sound running
  obtain ⟨large, bornHandler⟩ := valid.order.handler handler serves
  have role : state.role handler = .handler := by rw [State.role_of_large large, if_pos serves]
  have fits := (valid.sound thread).fits
  rw [State.view_thread, point] at fits
  have childless := valid.childless (by rw [point]; rfl)
  have childlessHandler : (state.threads handler).child = .none :=
    valid.childless (by rw [fresh]; rfl)
  have differs : handler ≠ thread := by
    intro same
    rw [same, point] at fresh
    cases fresh
  have empty : (state.threads handler).stashedContext.isSome = false := by
    refine Bool.eq_false_iff.mpr fun saved => ?_
    have setUp := ((valid.contexts handler).mp saved).1
    rw [fresh] at setUp
    cases setUp
  unfold State.setupHandler Thread.setupContext
  rw [serves]
  dsimp only
  rw [empty]
  refine Yields.bind (Yields.ok rfl) fun value same => Yields.ok ?_
  have threads : ((state.modify handler fun _ => value).setPoint thread .startupReady).threads =
      Function.update (Function.update state.threads handler value) thread
        { state.threads thread with point := .startupReady } := by
    simp only [State.setPoint, State.modify, Function.update_of_ne differs.symm]
  have moved := congrFun threads handler
  rw [Function.update_of_ne differs, Function.update_self] at moved
  have own := congrFun threads thread
  rw [Function.update_self] at own
  have holds : ∀ kind counted, value.holds.count (kind, counted) = 0 := by
    intro kind counted
    rw [Thread.count_holds, ← same, childlessHandler]
    rfl
  have old : ∀ kind counted, (state.threads handler).holds.count (kind, counted) = 0 := by
    intro kind counted
    rw [Thread.count_holds, fresh, childlessHandler]
    rfl
  refine ⟨?_, ?_, fun other => ?_, valid.active, fun other runs masked default => ?_,
    Or.inl (valid.opened running (by rw [point]; rintro ⟨⟩))⟩
  · refine State.pair_sound valid.sound born bornHandler differs threads rfl ?_
      (fun _ _ => rfl) ?_ ?_
    · intro kind counted other
      rw [holds, old, Thread.count_holds, Thread.count_holds, point]
      rfl
    · exact (valid.sound thread).advance (by simp [State.view, running]) fits rfl (by rw [State.view_thread, point]; rfl)
        unlocked acquiring fun child => absurd childless child
    · have prepared := ((valid.sound handler).setContext (some context) ((state.threads handler).ownedPageRanges ++ [stack])
        (state.threads handler).privileged).prepareHandler role fresh
      convert prepared using 1
      refine View.ext (by rw [State.view_thread, moved, ← same]; rfl) rfl rfl rfl rfl ?_ rfl rfl
      funext kind
      have counts := State.tally_pair born bornHandler differs threads rfl kind handler
      rw [holds, old, Thread.count_holds, Thread.count_holds, point] at counts
      exact Nat.add_right_cancel (Nat.add_right_cancel (Nat.add_right_cancel counts))
  · have served : State.served ((state.modify handler fun _ => value).setPoint thread .startupReady) :=
      ⟨handler, serves, by rw [moved, ← same]; rfl⟩
    refine ⟨valid.order.born, valid.order.handler, fun other starts => ?_, fun begins => ?_,
      fun begins => ?_, fun _ _ => served⟩
    · by_cases apart : other = thread
      · exact apart.trans startup
      by_cases server : other = handler
      · rw [server, moved, ← same] at starts
        cases starts
      · rw [threads, Function.update_of_ne apart, Function.update_of_ne server] at starts
        exact valid.order.starting other starts
    · rw [← startup, own] at begins
      cases begins
    · rw [← startup, own] at begins
      cases begins
  · by_cases apart : other = thread
    · have saved := valid.contexts thread
      rw [point] at saved
      rw [apart, own]
      exact saved
    by_cases server : other = handler
    · rw [server, moved, ← same]
      refine ⟨fun _ => ⟨rfl, fun active => differs ?_⟩, fun _ => rfl⟩
      exact Option.some.inj (active.symm.trans running)
    · rw [threads, Function.update_of_ne apart, Function.update_of_ne server]
      exact valid.contexts other
  · have apart : other = thread := Option.some.inj (Eq.trans (Eq.symm runs) running)
    subst apart
    rw [own] at masked ⊢
    have waits := valid.pending other running masked default
    rw [point] at waits
    exact waits

end Valid
end PicoOs.Kernel
