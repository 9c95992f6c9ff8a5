import PicoOs.Proofs.StepEffects

/-! What a step of one thread leaves alone of the others. -/

namespace PicoOs.Kernel
open Library

/-- References, the mask and the privilege level may change, but only the thread itself masks it. -/
structure Thread.same (before after : Thread) : Prop where
  frame : after.frame = before.frame
  context : after.stashedContext = before.stashedContext
  masked : after.maskedFromScheduler = true → before.maskedFromScheduler = true

namespace Thread.same
variable {first middle last : Thread}

theorem refl : first.same first := ⟨rfl, rfl, id⟩

theorem trans (earlier : first.same middle) (later : middle.same last) : first.same last :=
  ⟨later.frame.trans earlier.frame, later.context.trans earlier.context,
    earlier.masked ∘ later.masked⟩

theorem point (same : first.same last) : last.point = first.point := congrArg (·.1) same.frame

theorem acquiring (same : first.same last) : last.acquiring = first.acquiring :=
  congrArg (·.2.2.2.1) same.frame

end Thread.same

namespace State
variable {state after : State} {thread other : ThreadId}

theorem update_same {value : Thread}
    (threads : after.threads = Function.update state.threads thread value)
    (same : (state.threads thread).same value) (other : ThreadId) :
    (state.threads other).same (after.threads other) := by
  rw [threads]
  by_cases target : other = thread
  · rw [target, Function.update_self]
    exact same
  · rw [Function.update_of_ne target]
    exact .refl

theorem update_beside {value : Thread}
    (threads : after.threads = Function.update state.threads thread value)
    (differs : other ≠ thread) : (state.threads other).same (after.threads other) := by
  rw [threads, Function.update_of_ne differs]
  exact .refl

theorem released_same {mutex : MutexId} :
    (state.threads other).same ((state.released mutex).threads other) := by
  unfold released
  split
  · exact .refl
  · refine update_same rfl ?_ other
    exact ⟨rfl, rfl, id⟩

private theorem unlocked_same {mutex : MutexId} (differs : other ≠ thread) :
    (state.threads other).same (((state.dropped thread mutex).released mutex).threads other) := by
  have dropped : (state.threads other).same ((state.dropped thread mutex).threads other) :=
    update_beside rfl differs
  exact dropped.trans released_same

theorem woken_same : (state.threads other).same ((state.woken thread).threads other) := by
  unfold woken
  split
  · refine update_same rfl ?_ other
    exact ⟨rfl, rfl, nofun⟩
  · exact .refl

theorem inherited_same {mutex : MutexId} {next : ThreadId} {rest : List ThreadId} :
    (state.threads other).same ((state.inherited mutex next rest).threads other) :=
  @woken_same (state.setMutex mutex { state.mutexes mutex with holdingThread := some next, waitingThreads := rest }) next other

inductive Meddles (state : State) : ThreadStep → ThreadId → Prop where
  | destroys (victim : ThreadId) : Meddles state (.clearDangling victim) victim
  | stores (caller : ThreadId) (value : UInt32) (shouldReturn : Bool) :
      Meddles state (.storeReturn caller value shouldReturn) caller
  | createsHandler : Meddles state .constructHandler state.next
  | creates : Meddles state .construct state.next
  | setsUpHandler (handler : ThreadId) (stack : PageRange) (context : FullRegisterContext)
      (serves : state.systemHandler = some handler) : Meddles state
        (.setupHandler stack context) handler
  | setsUp (child : ThreadId) (stack : PageRange) (context : FullRegisterContext) :
      Meddles state (.setup child stack context) child

end State

namespace Valid
variable {state after : State} {thread other : ThreadId} {step : ThreadStep}

theorem step_beside (valid : Valid state) (permitted : state.permitted (.thread thread step))
    (executed : state.step thread step = .ok after) (own : step ≠ .svc) (differs : other ≠ thread) :
    (state.threads other).same (after.threads other) ∨ state.Meddles step other := by
  by_cases unlocks : ∃ mutex, step = .unlock mutex
  · obtain ⟨mutex, rfl⟩ := unlocks
    refine .inl ?_
    obtain ⟨-, rfl⟩ | ⟨-, -, rfl⟩ | ⟨next, rest, -, -, -, rfl⟩ :=
      (State.unlock_yields valid.sound mutex permitted.2.2.2).value executed
    · exact State.update_beside rfl differs
    · exact State.unlocked_same differs
    · exact (State.unlocked_same differs).trans State.inherited_same
  · rcases (valid.step_effect permitted executed own (not_exists.mp unlocks)).others
      differs with ⟨-, same⟩ | touches
    · rw [same]
      exact .inl .refl
    · generalize after.threads other = value at touches
      cases touches with
      | destroys => exact .inr (.destroys other)
      | createsHandler => exact .inr .createsHandler
      | creates => exact .inr .creates
      | setsUpHandler _ stack context serves =>
          exact .inr (.setsUpHandler other stack context serves)
      | setsUp _ stack context => exact .inr (.setsUp other stack context)
      | stores _ value shouldReturn => exact .inr (.stores other value shouldReturn)
      | unmasks => exact .inl ⟨rfl, rfl, nofun⟩

/-- Threads that are set up are not created or set up again. -/
theorem step_other (valid : Valid state) (permitted : state.permitted (.thread thread step))
    (executed : state.step thread step = .ok after) (own : step ≠ .svc) (differs : other ≠ thread)
    (setUp : (state.threads other).point.setUp = true) :
    (state.threads other).same (after.threads other) ∨ step = .clearDangling other ∨
      ∃ value shouldReturn, step = .storeReturn other value shouldReturn := by
  have ⟨settled, running, may⟩ := permitted
  have ⟨present, elder, born⟩ := ProgramPoint.setUp_excludes setUp
  have born := State.born_of_point valid.sound born
  obtain kept | meddles := valid.step_beside permitted executed own differs
  · exact Or.inl kept
  · cases meddles with
    | destroys => exact Or.inr (Or.inl rfl)
    | stores _ value shouldReturn => exact Or.inr (Or.inr ⟨value, shouldReturn, rfl⟩)
    | createsHandler | creates => exact absurd born (Nat.lt_irrefl _)
    | setsUpHandler _ stack context serves =>
      have point : (state.threads thread).point = .startupHandler := may.2.2
      have starting := valid.order.starting thread (by rw [point]; rfl)
      obtain ⟨fresh, same, young⟩ := valid.order.fresh (starting ▸ point)
      obtain rfl : other = fresh := Option.some.inj (serves.symm.trans same)
      exact absurd young elder
    | setsUp _ stack context =>
      have fresh : (state.threads thread).child = .fresh other := may.2.2.2
      have nascent := State.counted (State.active_born valid.sound running)
        (List.mem_append_right _ (by rw [fresh]; exact List.mem_singleton_self _))
      exact absurd ((valid.sound other).nascent nascent).1 elder

end Valid
end PicoOs.Kernel
