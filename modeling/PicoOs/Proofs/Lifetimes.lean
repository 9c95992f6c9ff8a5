import PicoOs.Proofs.StepPoints

/-! The thread of a process is never destroyed, and so neither is the process it refers to. -/

namespace PicoOs.Kernel
open Library

def ProgramPoint.inProcess : ProgramPoint → Bool
  | processStart | userMode => true
  | _ => false

theorem ProgramPoint.inProcess_cases {point : ProgramPoint} (inside : point.inProcess = true) :
    point = .processStart ∨ point = .userMode := by
  cases point with
  | processStart => exact Or.inl rfl
  | userMode => exact Or.inr rfl
  | _ => cases inside

private theorem State.process_lands {state : State} {thread : ThreadId} {step : ThreadStep}
    (may : (state.threads thread).may step)
    (inside : (state.threads thread).point.inProcess = true) :
    (state.lands thread step).inProcess = true := by
  cases step with
  | handOver => rfl
  | compute | lock | lockReturn | unlock | construct | loadExecutable | svc
  | proceed => exact inside
  | setup | enqueueChild | finish =>
    dsimp only [State.lands]
    obtain point | point := ProgramPoint.inProcess_cases inside
    · rw [point]
      rfl
    · rw [point]
      rfl
  | finishCall =>
    obtain ⟨reached, -⟩ := may.2.2
    rw [reached] at inside
    cases inside
  | trigger | finishDestroy | clearDangling | pollDangling | enable | constructHandler
  | setupHandler | checkWaiting
  | takeWaiting | readContext | storeReturn | finishExit | unmaskCaller | requeueCaller | mask =>
    have reached := may.2.2
    obtain point | point := ProgramPoint.inProcess_cases inside
    · rw [Thread.reaches, point] at reached
      cases reached
    · rw [Thread.reaches, point] at reached
      cases reached

private theorem Valid.process_kept {state after : State} (valid : Valid state) {event : SystemEvent}
    (permitted : state.permitted event)
    (executed : state.execute event = .ok after) {thread : ThreadId}
    (inside : (state.threads thread).point.inProcess = true) :
    (after.threads thread).point.inProcess = true := by
  have setUp : (state.threads thread).point.setUp = true := by
    obtain point | point := ProgramPoint.inProcess_cases inside
    · rw [point]
      rfl
    · rw [point]
      rfl
  cases event with
  | tick =>
    obtain rfl := Except.ok.inj executed
    unfold State.isrSystick
    split <;> exact inside
  | pendSV => rwa [(Switches.schedulerNext.value executed).point thread]
  | thread other step =>
    by_cases call : step = .svc
    · subst call
      rwa [(Switches.syscall.value executed).point thread]
    · by_cases own : thread = other
      · subst own
        rw [valid.step_lands permitted executed call]
        exact State.process_lands permitted.2.2 inside
      · obtain kept | rfl | ⟨value, shouldReturn, rfl⟩ :=
          valid.step_other permitted executed call own setUp
        · rwa [kept.point]
        · have ⟨_, running, _, _, point⟩ := permitted
          have point : (state.threads other).point = .defaultRelease thread := point
          have ended : (state.threads thread).point.ends = true :=
            State.released_ends valid.sound running point
          obtain point | point := ProgramPoint.inProcess_cases inside
          · rw [point] at ended
            cases ended
          · rw [point] at ended
            cases ended
        · obtain ⟨context, -, rfl⟩ := State.storeReturn_yields.value executed
          rwa [State.setPoint, State.modify_of_ne _ own, State.modify_self]

theorem process_lives {stack : ThreadId → PageRange} {context : ThreadId → FullRegisterContext}
    {state : State}
    {history : List (State × SystemEvent)}
    (run : State.machine.Run (State.boot stack context) history state)
    {thread : ThreadId} :
    ∀ entry ∈ history, (entry.1.threads thread).point.inProcess = true →
    (state.threads thread).point.inProcess = true := by
  induction run with
  | start => exact fun entry member => absurd member List.not_mem_nil
  | @step history state event after run permitted executed ih =>
    have valid := (reachable_valid ⟨history, run⟩).1
    intro entry member inside
    obtain earlier | last := List.mem_append.mp member
    · exact valid.process_kept permitted executed (ih entry earlier inside)
    · obtain rfl := List.mem_singleton.mp last
      exact valid.process_kept permitted executed inside

end PicoOs.Kernel
