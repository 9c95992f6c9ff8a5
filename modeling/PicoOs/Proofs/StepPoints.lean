import PicoOs.Proofs.StepOthers

/-! Where a step takes its own thread, and which points work on whose system call. -/

namespace PicoOs.Kernel
open Library

theorem State.changed_point {after : State} {threads : ThreadId → Thread} {thread : ThreadId}
    {value : Thread}
    {point : ProgramPoint} (changed : after.threads = Function.update threads thread value)
    (same : value.point = point) :
    (after.threads thread).point = point := by
  rw [changed, Function.update_self, same]

theorem Valid.step_lands {state after : State} (valid : Valid state) {thread : ThreadId}
    {step : ThreadStep}
    (permitted : state.permitted (.thread thread step))
    (executed : state.step thread step = .ok after) (own : step ≠ .svc) :
    (after.threads thread).point = state.lands thread step := by
  by_cases unlocks : ∃ mutex, step = .unlock mutex
  · obtain ⟨mutex, rfl⟩ := unlocks
    have dropped : ((state.dropped thread mutex).threads thread).point =
      (state.threads thread).point := State.changed_point rfl rfl
    have released := (@State.released_same (state.dropped thread mutex) thread mutex).point.trans dropped
    obtain ⟨-, rfl⟩ | ⟨-, -, rfl⟩ | ⟨next, rest, -, -, -, rfl⟩ :=
      (State.unlock_yields valid.sound mutex permitted.2.2.2).value executed
    · exact dropped
    · exact released
    · exact State.inherited_same.point.trans released
  · exact (valid.step_effect permitted executed own (not_exists.mp unlocks)).alters.point

private theorem State.changed_mask {before after : State} {thread : ThreadId} {value : Thread}
    (masked : (after.threads thread).maskedFromScheduler = true)
    (changed : after.threads = Function.update before.threads thread value)
    (same : value.maskedFromScheduler = (before.threads thread).maskedFromScheduler) :
    (before.threads thread).maskedFromScheduler = true := by
  rwa [changed, Function.update_self, same] at masked

/-- A thread masks itself only to wait for a mutex, to park as the SystemHandler thread, or to
die. -/
theorem Valid.step_masks {state after : State} (valid : Valid state) {thread : ThreadId}
    {step : ThreadStep}
    (permitted : state.permitted (.thread thread step))
    (executed : state.step thread step = .ok after) (own : step ≠ .svc)
    (masked : (after.threads thread).maskedFromScheduler = true) :
    (state.threads thread).maskedFromScheduler = true ∨ (after.threads thread).acquiring ≠ none ∨
      (step = .checkWaiting ∧ state.waitingThreads = []) ∨ ∃ captured, step = .mask captured := by
  by_cases unlocks : ∃ mutex, step = .unlock mutex
  · obtain ⟨mutex, rfl⟩ := unlocks
    refine .inl ?_
    obtain ⟨-, rfl⟩ | ⟨-, -, rfl⟩ | ⟨next, rest, -, -, -, rfl⟩ :=
      (State.unlock_yields valid.sound mutex permitted.2.2.2).value executed
    · exact State.changed_mask masked rfl rfl
    · exact (State.unlocked_masked thread).symm.trans masked
    · exact (State.unlocked_masked thread).symm.trans (State.inherited_same.masked masked)
  · have alters := (valid.step_effect permitted executed own (not_exists.mp unlocks)).alters
    exact alters.masked.imp (fun same => same.symm.trans masked) (Or.imp_left And.right)

end PicoOs.Kernel
