import PicoOs.Proofs.PageRuns

/-! What `allocate` answers when pages run out. A block on some list that is large
enough is always found and split; without one the recursion ends in the assertion
at `max_power`, and its failure branch is never taken. -/

namespace PicoOs.Kernel
open Library

namespace PageAllocator

/-- Some list holds a block that can be split down to the power. -/
def Supplies (allocator : PageAllocator) (power : Nat) : Prop :=
  ∃ larger, power ≤ larger ∧ larger ≤ maxPower ∧ allocator.blocks larger ≠ 0

/-- A range if one can be had, otherwise nothing, with the lists as they were. -/
structure Answers (allocator : PageAllocator) (power : Nat) (result : Option PageRange)
    (after : PageAllocator) : Prop where
  returns : allocator.allocateLocked power = .ok (result, after)
  range : allocator.Supplies power → ∃ range, result = some range ∧ range.power = power
  empty : ¬ allocator.Supplies power → result = none ∧ ∀ free, allocator.Lists free →
    after.Lists free

variable {good : PageRange → Prop} {space : Set Nat} {allocator : PageAllocator}
  {free live : List PageRange}
  {power levels : Nat}

private theorem Supplies.above (supplies : allocator.Supplies power)
    (own : allocator.blocks power = 0) :
    power < maxPower ∧ allocator.Supplies (power + 1) := by
  obtain ⟨larger, above, bounded, present⟩ := supplies
  have other : larger ≠ power := by
    intro same
    exact present (same ▸ own)
  have strictly : power < larger := Nat.lt_of_le_of_ne above other.symm
  exact ⟨Nat.lt_of_lt_of_le strictly bounded, larger, strictly, bounded, present⟩

/-- The climb stops at a block that supplies the power, and every split on the way back passes its
checks. -/
theorem Holds.allocateUp_returns (holds : Holds good space allocator free live)
    (halving : PageRange.Halving good)
    (word : linkPower ≤ power) (supplies : allocator.Supplies power)
    (all : power + levels = maxPower) :
    ∃ result after, allocator.allocateUp (levels + 1) power = .ok (result, after) := by
  induction levels generalizing power with
  | zero =>
    have present : allocator.blocks power ≠ 0 := by
      intro absent
      exact absurd (supplies.above absent).1 (by omega)
    exact ⟨_, _, by rw [PageAllocator.allocateUp, if_pos present]⟩
  | succ levels ih =>
    by_cases present : allocator.blocks power ≠ 0
    · exact ⟨_, _, by rw [PageAllocator.allocateUp, if_pos present]⟩
    obtain ⟨below, larger⟩ := supplies.above (not_not.mp present)
    obtain ⟨block, middle, found⟩ := ih (Nat.le_succ_of_le word) larger (by omega)
    obtain ⟨⟨_, base⟩, rest, rfl, rfl, taken, _⟩ := holds.allocateUp halving found
    have positive := Nat.two_pow_pos power
    obtain ⟨placed, _⟩ := taken.placed ⟨power + 1, base⟩ (by simp)
    have fits : base + 2 ^ (power + 1) ≤ 2 ^ 32 := placed.fits
    rw [PageRange.double, ← Nat.add_assoc] at fits
    have address : wrap (base + 2 ^ power) = base + 2 ^ power := wrap_of_lt (by omega)
    obtain ⟨pushed, _⟩ := (taken.halve halving word).push
    refine ⟨some ⟨power, base⟩, middle.pushed ⟨power, base + 2 ^ power⟩, ?_⟩
    rw [PageAllocator.allocateUp, if_neg present, if_pos below, found]
    simp only [bind, Except.bind, address, pushed]

private theorem allocateUp_asserts (exhausted : ¬ allocator.Supplies power)
    (all : power + levels = maxPower) :
    allocator.allocateUp (levels + 1) power = .error .assert := by
  have absent : ¬ allocator.blocks power ≠ 0 :=
    fun present => exhausted ⟨power, Nat.le_refl _, by omega, present⟩
  induction levels generalizing power with
  | zero => rw [allocateUp, if_neg absent, if_neg (by omega)]
  | succ levels ih =>
    have above : ¬ allocator.Supplies (power + 1) := by
      rintro ⟨larger, higher, bounded, present⟩
      exact exhausted ⟨larger, Nat.le_of_succ_le higher, bounded, present⟩
    have next := ih above (by omega) (fun present => above ⟨power + 1, Nat.le_refl _, by omega, present⟩)
    rw [allocateUp, if_neg absent, if_pos (by omega), next]
    rfl

/-- Between two calls the answer is the right one exactly if some list supplies the power. -/
theorem Holds.answers_iff (holds : Holds good space allocator free live)
    (halving : PageRange.Halving good)
    (word : linkPower ≤ power) (bounded : power ≤ maxPower) :
    (∃ result after, allocator.Answers power result after) ↔ allocator.Supplies power := by
  obtain ⟨levels, all⟩ := Nat.exists_eq_add_of_le bounded
  have climb : allocator.allocateLocked power = allocator.allocateUp (levels + 1) power := by
    rw [allocateLocked, show maxPower + 1 - power = levels + 1 by omega]
  constructor
  · intro ⟨result, after, answers⟩
    by_contra exhausted
    have returns := answers.returns
    rw [climb, allocateUp_asserts exhausted all.symm] at returns
    cases returns
  · intro supplies
    obtain ⟨result, after, returns⟩ := holds.allocateUp_returns halving word supplies all.symm
    obtain ⟨range, _, same, size, _⟩ := holds.allocateUp halving returns
    exact ⟨result, after, climb.trans returns, fun _ => ⟨range, same, size⟩, absurd supplies⟩

end PageAllocator

/-- In every state that calls and writes of their owners reach, an allocation answers
as its type announces exactly if it need not report that pages ran out. -/
theorem allocate_answers_iff {memory : Memory} {areaStart areaEnd : Nat}
    (area : PageArea areaStart areaEnd) :
    ∃ allocator, PageAllocator.construct memory areaStart areaEnd = .ok allocator ∧
      ∀ history state, PageState.machine.Run ⟨allocator, []⟩ history state →
        ∀ power, pagePower ≤ power → power ≤ maxPower →
          ((∃ result after, state.allocator.Answers power result after) ↔
            state.allocator.Supplies power) := by
  obtain ⟨allocator, found, space, built, holds, _⟩ := area.constructed memory
  refine ⟨allocator, built, ?_⟩
  intro history state run power large bounded
  have initial : (⟨allocator, []⟩ : PageState).Holds (fun _ => True) space := ⟨found, holds⟩
  obtain ⟨free, current⟩ := initial.reachable PageState.halving_true ⟨history, run⟩
  exact current.answers_iff PageState.halving_true (Nat.le_trans (by decide) large) bounded

theorem allocate_answers_iff_page :
    ∃ allocator, PageAllocator.construct (fun _ => 0) 0x20000100 0x20000200 = .ok allocator ∧
      ((∃ result after, allocator.Answers 8 result after) ↔ allocator.Supplies 8) := by
  have area : PageArea 0x20000100 0x20000200 := .of_margin (by decide) (by decide) (by decide)
  obtain ⟨allocator, built, runs⟩ := @allocate_answers_iff (fun _ => 0) _ _ area
  exact ⟨allocator, built, runs [] ⟨allocator, []⟩ .start 8 (by decide) (by decide)⟩

/-- One page to give away, asked for twice. -/
theorem allocate_asserts :
    ∃ allocator history state, PageAllocator.construct (fun _ => 0) 0x20000100 0x20000200 =
      .ok allocator ∧
      PageState.machine.Run ⟨allocator, []⟩ history state ∧ state.live = [⟨8, 0x20000100⟩] ∧
        state.allocator.allocateLocked 8 = .error .assert ∧
        ¬ ∃ result after, state.allocator.Answers 8 result after := by
  have played : (PageAllocator.construct (fun _ => 0) 0x20000100 0x20000200).toOption.bind
    (fun allocator =>
      (PageState.machine.after ⟨allocator, []⟩ [.allocate 8]).map (fun state =>
        (state.live, state.allocator.allocateLocked 8 matches .error .assert))) =
          some ([⟨8, 0x20000100⟩], true) := by
    decide +kernel
  cases built : PageAllocator.construct (fun _ => 0) 0x20000100 0x20000200 with
  | error fault => rw [built] at played; cases played
  | ok allocator =>
    rw [built] at played
    obtain ⟨state, executed, seen⟩ := Option.map_eq_some_iff.mp played
    obtain ⟨live, stops⟩ := Prod.mk.inj seen
    obtain ⟨history, run⟩ := Machine.reachable_after executed
    have asserts : state.allocator.allocateLocked 8 = .error .assert := by
      cases outcome : state.allocator.allocateLocked 8 with
      | ok result => rw [outcome] at stops; cases stops
      | error fault => rw [outcome] at stops; cases fault <;> first | rfl | cases stops
    refine ⟨allocator, history, state, rfl, run, live, asserts, ?_⟩
    intro ⟨result, after, answers⟩
    have returns := asserts.symm.trans answers.returns
    cases returns

end PicoOs.Kernel
