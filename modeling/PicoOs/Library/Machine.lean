import Mathlib

/-! Machines whose steps are guarded by a permission and may stop with a fault.
A run keeps the states it passed through, so that a property of every reachable
state and a property of the whole history are both proved by one induction. -/

namespace PicoOs.Library

/-- What is picked out of a history that has become longer. -/
theorem filterMap_concat {α : Type u} {β : Type v} (pick : α → Option β) (list : List α)
    (last : α) :
    (list ++ [last]).filterMap pick = list.filterMap pick ++ (pick last).toList := by
  rw [List.filterMap_append]
  cases picked : pick last with
  | none => rw [List.filterMap_cons_none picked, List.filterMap_nil, Option.toList_none]
  | some value => rw [List.filterMap_cons_some picked, List.filterMap_nil, Option.toList_some]

structure Machine (σ : Type u) (ε : Type v) (φ : Type w) where
  permitted : σ → ε → Prop
  execute : σ → ε → Except φ σ

namespace Machine
variable {σ : Type u} {ε : Type v} {φ : Type w} (machine : Machine σ ε φ)

/-- The history lists each event with the state it was executed in, oldest first. -/
inductive Run (start : σ) : List (σ × ε) → σ → Prop where
  | start : Run start [] start
  | step {history state event next} (run : Run start history state)
      (permitted : machine.permitted state event) (executed : machine.execute state event = .ok next) :
      Run start (history ++ [(state, event)]) next

def Reachable (start state : σ) : Prop := ∃ history, machine.Run start history state

variable {machine}

/-- A property of history and state that every step extends holds of every run. -/
theorem Run.induct {start : σ} (property : List (σ × ε) → σ → Prop)
    (initial : property [] start)
    (step : ∀ {history state event next}, machine.Run start history state → property history state →
      machine.permitted state event → machine.execute state event = .ok next →
      property (history ++ [(state, event)]) next)
    {history state} (run : machine.Run start history state) : property history state := by
  induction run with
  | start => exact initial
  | step run permitted executed ih => exact step run ih permitted executed

/-- An invariant that only steps meeting a condition are known to keep holds in
every state of a run all of whose steps meet it. -/
theorem Run.invariant_under {start : σ} (invariant : σ → Prop) (condition : σ → ε → Prop)
    (initial : invariant start)
    (step : ∀ {state event next}, machine.Reachable start state → invariant state →
      condition state event →
      machine.permitted state event → machine.execute state event = .ok next → invariant next)
    {history state} (run : machine.Run start history state)
    (meets : ∀ entry ∈ history, condition entry.1 entry.2) : invariant state := by
  induction run with
  | start => exact initial
  | @step history state event next run permitted executed ih =>
    have earlier := ih (fun entry member => meets entry (List.mem_append_left _ member))
    exact step ⟨history, run⟩ earlier (meets (state, event) (by simp)) permitted executed

theorem Reachable.invariant {start state : σ} (invariant : σ → Prop) (initial : invariant start)
    (step : ∀ {state event next}, invariant state → machine.permitted state event →
      machine.execute state event = .ok next → invariant next)
    (reachable : machine.Reachable start state) : invariant state := by
  obtain ⟨history, run⟩ := reachable
  induction run with
  | start => exact initial
  | step run permitted executed ih => exact step ih permitted executed

variable (machine) [∀ state event, Decidable (machine.permitted state event)]

/-- Execute a list of events, or fail at the first one that is not permitted or faults. -/
def after : σ → List ε → Option σ
  | state, [] => some state
  | state, event :: rest =>
    if machine.permitted state event then
      match machine.execute state event with
      | .ok next => after next rest
      | .error _ => none
    else none

variable {machine}

theorem after_cons {state final : σ} {event : ε} {rest : List ε}
    (played : machine.after state (event :: rest) = some final) :
    ∃ next, machine.permitted state event ∧ machine.execute state event = .ok next ∧
    machine.after next rest = some final := by
  simp only [after] at played
  split at played
  next permitted =>
    split at played
    next next executed => exact ⟨next, permitted, executed, played⟩
    next => cases played
  next => cases played

def trail (machine : Machine σ ε φ) : σ → List ε → List (σ × ε)
  | _, [] => []
  | state, event :: rest => (state, event) :: match machine.execute state event with
    | .ok next => trail machine next rest
    | .error _ => []

/-- A run goes on with the events that can be executed in its last state. -/
theorem Run.plays {start state final : σ} {history : List (σ × ε)} {events : List ε}
    (run : machine.Run start history state) (played : machine.after state events = some final) :
    machine.Run start (history ++ machine.trail state events) final ∧
    (machine.trail state events).map Prod.snd = events := by
  induction events generalizing state history with
  | nil =>
    cases played
    exact ⟨(List.append_nil history).symm ▸ run, rfl⟩
  | cons event rest ih =>
    obtain ⟨next, permitted, executed, played⟩ := after_cons played
    obtain ⟨extended, same⟩ := ih (run.step permitted executed) played
    have longer : machine.trail state (event :: rest) =
      (state, event) :: machine.trail next rest := by
      rw [trail, executed]
    rw [longer]
    exact ⟨by rwa [List.append_assoc] at extended, congrArg (event :: ·) same⟩

theorem Run.extend {start state final : σ} {history : List (σ × ε)} {events : List ε}
    (run : machine.Run start history state) (played : machine.after state events = some final) :
    ∃ more, machine.Run start (history ++ more) final :=
  ⟨_, (run.plays played).1⟩

theorem run_after {start final : σ} {events : List ε}
    (played : machine.after start events = some final) :
    ∃ history, machine.Run start history final ∧ history.map Prod.snd = events :=
  ⟨_, Run.plays .start played⟩

theorem reachable_after {start final : σ} {events : List ε}
    (played : machine.after start events = some final) : machine.Reachable start final :=
  Run.extend .start played

/-- The machine that only takes steps meeting the condition. -/
def restrict (machine : Machine σ ε φ) (condition : σ → ε → Prop) : Machine σ ε φ where
  permitted state event := machine.permitted state event ∧ condition state event
  execute := machine.execute

instance {machine : Machine σ ε φ}
    {condition : σ → ε → Prop} [∀ state event, Decidable (machine.permitted state event)]
    [∀ state event, Decidable (condition state event)] (state : σ) (event : ε) :
    Decidable ((machine.restrict condition).permitted state event) :=
  inferInstanceAs (Decidable (machine.permitted state event ∧ condition state event))

omit [∀ state event, Decidable (machine.permitted state event)] in
theorem Run.unrestrict {condition : σ → ε → Prop} {start : σ} {history state}
    (run : (machine.restrict condition).Run start history state) :
    machine.Run start history state ∧ ∀ entry ∈ history, condition entry.1 entry.2 := by
  induction run with
  | start => exact ⟨.start, by simp⟩
  | @step history state event next run permitted executed ih =>
    refine ⟨ih.1.step permitted.1 executed, fun entry member => ?_⟩
    obtain earlier | last := List.mem_append.mp member
    · exact ih.2 entry earlier
    · obtain rfl := List.mem_singleton.mp last
      exact permitted.2

end Machine
end PicoOs.Library
