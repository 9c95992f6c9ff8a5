import PicoOs.Proofs.Idling
import PicoOs.Proofs.StepFrames

/-! Threads get their turns in the order in which they were queued. -/

namespace PicoOs.Kernel
open Library

/-- The thread that a switch takes from the ready queue. There is none while a thread waits to be
destroyed. -/
def State.turn (state : State) (event : SystemEvent) : Option ThreadId :=
  match (do let entry ← state.scheduling event; entry.saveActive) with
  | .ok saved => if saved.danglingThreads = [] then saved.queuedThreads.head? else none
  | .error _ => none

namespace State
variable {state entry after : State} {event : SystemEvent} {thread : ThreadId}

private theorem turn_of_entered (entered : state.scheduling event = .ok entry)
    (saved : entry.saveActive = .ok entry.putAway) :
    state.turn event = if entry.putAway.danglingThreads = [] then entry.putAway.queuedThreads.head? else none := by
  have both : (do let entry ← state.scheduling event; entry.saveActive) = .ok entry.putAway :=
    bind_ok.mpr ⟨entry, entered, saved⟩
  rw [turn, both]

private theorem turn_quiet (schedules : event.schedules = false) : state.turn event = none := by
  have stays : state.scheduling event = .error .notReached := by
    cases event with
    | tick => rfl
    | pendSV => cases schedules
    | thread thread step =>
      cases step with
      | svc => cases schedules
      | _ => rfl
  rw [turn, stays]
  rfl

end State

namespace Valid
variable {state entry after : State} {event : SystemEvent} {thread : ThreadId} {step : ThreadStep}

private theorem step_queues (valid : Valid state)
    (permitted : state.permitted (.thread thread step)) (own : step ≠ .svc)
    (executed : state.step thread step = .ok after) :
    ∃ added, after.queuedThreads = state.queuedThreads ++ added := by
  have ⟨settled, running, may⟩ := permitted
  have nothing (same : after.queuedThreads = state.queuedThreads) : ∃ added, after.queuedThreads =
    state.queuedThreads ++ added :=
    ⟨[], same.trans (List.append_nil _).symm⟩
  cases step with
  | svc => exact absurd rfl own
  | lock mutex =>
    obtain ⟨-, -, rfl⟩ | ⟨-, -, rfl⟩ | ⟨-, rfl⟩ :=
      (State.lock_yields mutex (State.active_alive valid.sound running)).value executed
    · exact nothing rfl
    · exact nothing rfl
    · exact nothing rfl
  | unlock mutex =>
    obtain ⟨-, rfl⟩ | ⟨-, -, rfl⟩ | ⟨next, rest, -, -, -, rfl⟩ :=
      (State.unlock_yields valid.sound mutex may.2).value executed
    · exact nothing rfl
    · exact nothing State.released_queued
    · unfold State.inherited
      rw [State.woken_queued]
      have released : (State.released (state.dropped thread mutex) mutex).queuedThreads =
        state.queuedThreads := State.released_queued
      split
      · exact ⟨[next], congrArg (· ++ [next]) released⟩
      · exact ⟨[], released.trans (List.append_nil _).symm⟩
  | enable =>
    cases executed
    exact nothing rfl
  | pollDangling =>
    obtain ⟨-, rfl⟩ | ⟨victim, rest, -, rfl⟩ := State.pollDangling_yields.value executed
    · exact nothing rfl
    · exact nothing rfl
  | clearDangling victim =>
    obtain rfl := State.clearDangling_yields.value executed
    exact nothing rfl
  | takeWaiting =>
    obtain ⟨caller, rest, -, rfl⟩ := State.takeWaiting_yields.value executed
    exact nothing rfl
  | constructHandler =>
    cases executed
    exact nothing rfl
  | enqueueChild child =>
    obtain rfl := State.addThread_yields.value executed
    exact ⟨[child], rfl⟩
  | requeueCaller caller =>
    obtain rfl := State.addThread_yields.value executed
    exact ⟨[caller], rfl⟩
  | _ => exact nothing (State.step_kept rfl |>.value executed).queued

private theorem entered_queues (entered : Entered state entry event) :
    ∃ added, entry.queuedThreads = state.queuedThreads ++ added := by
  cases entered with
  | pendSV active running same =>
    rw [same]
    exact ⟨[], (List.append_nil _).symm⟩
  | svc thread handler running suspended =>
    rw [suspended.same, State.woken_queued]
    split
    · exact ⟨[handler], rfl⟩
    · exact ⟨[], (List.append_nil _).symm⟩

/-- A switch takes the thread at the head of the queue, or leaves the queue alone. -/
theorem switch_turns (valid : Valid state) (permitted : state.permitted event)
    (schedules : event.schedules = true)
    (executed : state.execute event = .ok after) :
    (∃ added, state.queuedThreads ++ added = (state.turn event).toList ++ after.queuedThreads) ∧
    (after.activeThread = state.turn event ∨
      state.turn event = none ∧
      (after.activeThread = some defaultThread ∨ after.activeThread = some fallbackThread)) := by
  rw [State.execute_scheduling permitted schedules valid.active] at executed
  obtain ⟨entry, entered, rest⟩ := bind_ok.mp executed
  have sound := valid.scheduling_sound permitted entered
  obtain ⟨first, queued⟩ := entered_queues (valid.entered permitted entered)
  obtain ⟨second, kept⟩ := entry.putAway_queued
  have whole : entry.putAway.queuedThreads = state.queuedThreads ++ (first ++ second) := by
    rw [kept, queued, List.append_assoc]
  have switched : (do let state ← entry.saveActive; state.switch) = .ok after :=
    entry.schedule_switch ▸ rest
  obtain ⟨saved, away, switched⟩ := bind_ok.mp switched
  obtain rfl : saved = entry.putAway := (State.putAway_yields sound).value away
  have turn := State.turn_of_entered entered away
  obtain ⟨middle, chosen, restored⟩ := bind_ok.mp switched
  obtain ⟨rests, rfl⟩ | ⟨next, others, settled, queue, rfl⟩ :=
    (@State.chooseThread_yields _ (fun _ => True) (State.putAway_sound sound)).value chosen
  · obtain ⟨registers, rfl⟩ := (State.unstash_yields _).value restored
    have none_taken : state.turn event = none := by
      rw [turn]
      rcases rests with dangling | empty
      · exact if_neg dangling
      · rw [empty, List.head?_nil, ite_self]
    rw [none_taken]
    refine ⟨⟨first ++ second, whole.symm⟩, .inr ⟨rfl, ?_⟩⟩
    have active : (entry.putAway.idled.resumed entry.putAway.idleThread registers).activeThread =
      some entry.putAway.idleThread := rfl
    rw [active, State.idleThread]
    split
    · exact .inr rfl
    · exact .inl rfl
  · obtain ⟨registers, rfl⟩ := (State.unstash_yields _).value restored
    have taken : state.turn event = some next := by
      rw [turn, if_pos settled, queue, List.head?_cons]
    rw [taken]
    exact ⟨⟨first ++ second, whole.symm.trans queue⟩, .inl rfl⟩

private theorem event_turns (valid : Valid state) (permitted : state.permitted event)
    (executed : state.execute event = .ok after) :
    ∃ added, state.queuedThreads ++ added = (state.turn event).toList ++ after.queuedThreads := by
  by_cases schedules : event.schedules = true
  · exact (valid.switch_turns permitted schedules executed).1
  · rw [Bool.not_eq_true] at schedules
    rw [State.turn_quiet schedules]
    cases event with
    | tick =>
      cases executed
      refine ⟨[], ?_⟩
      unfold State.isrSystick
      split
      · exact List.append_nil _
      · exact List.append_nil _
    | pendSV => cases schedules
    | thread thread step =>
      have own : step ≠ .svc := by
        rintro rfl
        cases schedules
      obtain ⟨added, queued⟩ := valid.step_queues permitted own executed
      exact ⟨added, queued.symm⟩

end Valid

def turns (history : List (State × SystemEvent)) : List ThreadId :=
  history.filterMap fun entry => entry.1.turn entry.2

/-- No thread overtakes another one in the ready queue: the queued threads get the next turns in
their order. A switch that takes none of them activates one of the threads that have nothing to
do. -/
theorem queued_threads_take_turns {stack : ThreadId → PageRange}
    {context : ThreadId → FullRegisterContext} {start final : State}
    {history : List (State × SystemEvent)}
    (reachable : State.machine.Reachable (State.boot stack context) start)
    (run : State.machine.Run start history final) :
    (∀ place thread, start.queuedThreads[place]? = some thread → place < (turns history).length →
      (turns history)[place]? = some thread) ∧
    ∀ entry ∈ history, entry.2.schedules = true → ∀ after, entry.1.execute entry.2 = .ok after →
      after.activeThread = entry.1.turn entry.2 ∨ entry.1.turn entry.2 = none ∧
        (after.activeThread = some defaultThread ∨ after.activeThread = some fallbackThread) := by
  have whole : Valid final ∧ (∃ added,
    start.queuedThreads ++ added = turns history ++ final.queuedThreads) ∧
      ∀ entry ∈ history, entry.2.schedules = true → ∀ after, entry.1.execute entry.2 = .ok after →
        after.activeThread = entry.1.turn entry.2 ∨ entry.1.turn entry.2 = none ∧
          (after.activeThread = some defaultThread ∨ after.activeThread = some fallbackThread) := by
    induction run with
    | start => exact ⟨(reachable_valid reachable).1, ⟨[], List.append_nil _⟩, List.forall_mem_nil _⟩
    | @step history state event next run permitted executed ih =>
      obtain ⟨valid, ⟨added, queue⟩, earlier⟩ := ih
      obtain ⟨more, moved⟩ := valid.event_turns permitted executed
      refine ⟨(valid.execute permitted).value executed, ⟨added ++ more, ?_⟩, fun entry member => ?_⟩
      · have longer : turns (history ++ [(state, event)]) = turns history ++
          (state.turn event).toList :=
          filterMap_concat (fun entry : State × SystemEvent => entry.1.turn entry.2)
            history (state, event)
        rw [longer, ← List.append_assoc, queue, List.append_assoc, moved, List.append_assoc]
      · rcases List.mem_append.mp member with before | last
        · exact earlier entry before
        · obtain rfl := List.mem_singleton.mp last
          exact fun schedules after done => (valid.switch_turns permitted schedules done).2
  obtain ⟨-, ⟨added, queue⟩, activated⟩ := whole
  refine ⟨fun place thread here short => ?_, activated⟩
  obtain ⟨inside, -⟩ := List.getElem?_eq_some_iff.mp here
  have same := congrArg (fun list => list[place]?) queue
  simp only [List.getElem?_append_left inside, List.getElem?_append_left short, here] at same
  exact same.symm

/-- Worker 6 dies while processes 7 and 5 are queued, and process 7 is interrupted by the timer. -/
theorem queued_threads_take_turns_two : ∃ start final history,
    State.machine.Reachable .bootPlain start ∧ State.machine.Run start history final ∧
      history.map Prod.snd = SystemEvent.ends 6 ++ [.tick, .pendSV] ∧ start.queuedThreads = [7, 5] ∧
        (turns history)[0]? = some 7 ∧ (turns history)[1]? = some 5 := by
  have played : (State.machine.after .bootPlain (SystemEvent.startup ++ SystemEvent.destroys startupThread ++
      (SystemEvent.spawnRound [(5, true)] 6).take 18)).map (fun start => (start.queuedThreads,
        (State.machine.after start (SystemEvent.ends 6 ++ [.tick, .pendSV])).isSome,
        (turns (State.machine.trail start (SystemEvent.ends 6 ++ [.tick, .pendSV]))).length)) =
          some ([7, 5], true, 2) := by
    decide +kernel
  obtain ⟨start, reached, same⟩ := Option.map_eq_some_iff.mp played
  simp only [Prod.mk.injEq] at same
  obtain ⟨queued, ends, length⟩ := same
  obtain ⟨final, ended⟩ := Option.isSome_iff_exists.mp ends
  have reachable := Machine.reachable_after reached
  obtain ⟨run, events⟩ := Machine.Run.plays .start ended
  rw [List.nil_append] at run
  have inOrder := (queued_threads_take_turns reachable run).1
  refine ⟨start, final, _, reachable, run, events, queued,
    inOrder 0 7 (by rw [queued]; rfl) ?_, inOrder 1 5 (by rw [queued]; rfl) ?_⟩
  · rw [length]
    exact Nat.two_pos
  · rw [length]
    exact Nat.one_lt_two

end PicoOs.Kernel
