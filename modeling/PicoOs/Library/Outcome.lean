import PicoOs.Library.Machine

/-! Computations that may stop with a fault. `Yields` is partial correctness with a
list of tolerated faults: a value meets the postcondition, and any other fault is
ruled out. -/

namespace PicoOs.Library
variable {φ : Type u} {α β : Type v}

theorem bind_ok {result : Except φ α} {next : α → Except φ β} {final : β} :
    (result >>= next) = .ok final ↔ ∃ value, result = .ok value ∧ next value = .ok final := by
  constructor
  · intro done
    cases result with
    | ok value => exact ⟨value, rfl, done⟩
    | error fault => cases done
  · rintro ⟨value, rfl, rest⟩
    exact rest

theorem bind_error {result : Except φ α} {next : α → Except φ β} {fault : φ} :
    (result >>= next) = .error fault ↔
    result = .error fault ∨ ∃ value, result = .ok value ∧ next value = .error fault := by
  cases result with
  | ok value =>
    constructor
    · exact fun failed => .inr ⟨value, rfl, failed⟩
    · rintro (failed | ⟨_, same, failed⟩)
      · cases failed
      · exact Except.ok.inj same ▸ failed
  | error found =>
    constructor
    · exact fun failed => .inl (congrArg Except.error (Except.error.inj failed))
    · rintro (failed | ⟨_, same, _⟩)
      · exact congrArg Except.error (Except.error.inj failed)
      · cases same

theorem toOption_some {result : Except φ α} {value : α} :
    result.toOption = some value ↔ result = .ok value := by
  cases result <;> simp [Except.toOption]

def Returns (result : Except φ α) : Prop := ∃ value, result = .ok value

theorem Returns.ok (value : α) : Returns (.ok value : Except φ α) := ⟨value, rfl⟩

theorem not_returns_error {fault : φ} : ¬Returns (.error fault : Except φ α) := nofun

def Yields (tolerated : φ → Prop) (result : Except φ α) (post : α → Prop) : Prop :=
  match result with
  | .ok value => post value
  | .error fault => tolerated fault

namespace Yields
variable {tolerated : φ → Prop} {post middle : α → Prop}

theorem ok {value : α} (holds : post value) : Yields tolerated (.ok value) post := holds

theorem error {fault : φ} (allowed : tolerated fault) :
    Yields tolerated (.error fault : Except φ α) post := allowed

theorem bind {result : Except φ α} {next : α → Except φ β} {final : β → Prop}
    (first : Yields tolerated result middle)
    (rest : ∀ value, middle value → Yields tolerated (next value) final) :
    Yields tolerated (result >>= next) final := by
  cases result with
  | ok value => exact rest value first
  | error fault => exact first

theorem mono {result : Except φ α} (first : Yields tolerated result middle)
    (weaker : ∀ value, middle value → post value) :
    Yields tolerated result post := by
  cases result with
  | ok value => exact weaker value first
  | error fault => exact first

theorem tolerate {allowed : φ → Prop} {result : Except φ α} (first : Yields tolerated result post)
    (weaker : ∀ fault, tolerated fault → allowed fault) : Yields allowed result post := by
  cases result with
  | ok value => exact first
  | error fault => exact weaker fault first

/-- The value that meets the postcondition is the one that is computed. -/
theorem named {result : Except φ α} (first : Yields tolerated result post) :
    Yields tolerated result fun value => result = .ok value ∧ post value := by
  cases result with
  | ok value => exact ⟨rfl, first⟩
  | error fault => exact first

/-- Forget which faults are tolerated. -/
theorem any {result : Except φ α} (first : Yields tolerated result post) :
    Yields (fun _ => True) result post := by
  cases result with
  | ok value => exact first
  | error fault => trivial

theorem value {result : Except φ α} {value : α} (yields : Yields tolerated result post)
    (same : result = .ok value) :
    post value := by
  subst same
  exact yields

theorem fault {result : Except φ α} {fault : φ} (yields : Yields tolerated result post)
    (same : result = .error fault) :
    tolerated fault := by
  subst same
  exact yields

end Yields

variable {σ : Type v} {ε : Type w} {machine : Machine σ ε φ}

/-- An invariant whose steps yield it again holds in every reachable state, and only
tolerated faults are ever met. -/
theorem Machine.Reachable.yields {start state : σ} {invariant : σ → Prop} {tolerated : φ → Prop}
    (initial : invariant start)
    (step : ∀ {state event}, invariant state → machine.permitted state event →
      Yields tolerated (machine.execute state event) invariant)
    (reachable : machine.Reachable start state) :
    invariant state ∧ ∀ event fault, machine.permitted state event →
    machine.execute state event = .error fault →
      tolerated fault := by
  have valid : invariant state :=
    reachable.invariant invariant initial fun before permitted executed =>
      (step before permitted).value executed
  exact ⟨valid, fun event fault permitted failed => (step valid permitted).fault failed⟩

end PicoOs.Library
