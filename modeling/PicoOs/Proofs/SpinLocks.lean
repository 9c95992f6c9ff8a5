import PicoOs.Kernel.HardwareSpinLock

/-! `lock` does not look at what it reads. A call that has masked the interrupts loads from the
register for ever, whether it has acquired the lock or not. -/

namespace PicoOs.Kernel
open Library

/-- Between a guard and its destructor the mask may change, but not for good. -/
theorem MaskedInterruptGuard.destruct_construct (core : Core) :
    (MaskedInterruptGuard.construct core).1.destruct (MaskedInterruptGuard.construct core).2 = .ok core := by
  obtain ⟨enabled⟩ := core
  cases enabled <;> rfl

namespace HardwareSpinLock
variable {register : Nat → UInt32} {call after : LockCall}

/-- `unlock` has no loop: it returns with the mask as it was. -/
theorem unlock_restores (core : Core) : unlock core = .ok (1, core) := by
  obtain ⟨enabled⟩ := core
  cases enabled <;> rfl

inductive Spins : LockCall → Prop where
  | load {guard : MaskedInterruptGuard} {reads : Nat} : Spins ⟨⟨false⟩, .load guard, reads⟩
  | test {guard : MaskedInterruptGuard} {value : UInt32} {reads : Nat} :
      Spins ⟨⟨false⟩, .test guard value, reads⟩

private theorem step_entry (register : Nat → UInt32) (core : Core) :
    ∃ guard, step register (lock core) = .ok ⟨⟨false⟩, .load guard, 0⟩ := by
  obtain ⟨enabled⟩ := core
  cases enabled with
  | true => exact ⟨⟨true⟩, rfl⟩
  | false => exact ⟨⟨false⟩, rfl⟩

private theorem Spins.step (spins : Spins call) :
    ∃ after, step register call = .ok after ∧ Spins after := by
  cases spins with
  | load => exact ⟨_, rfl, .test⟩
  | @test guard value reads =>
    refine ⟨⟨⟨false⟩, .load guard, reads⟩, ?_, .load⟩
    exact ite_self _

private theorem Spins.run (spins : Spins call) (count : Nat) :
    ∃ after, steps register count call = .ok after ∧ Spins after := by
  induction count generalizing call with
  | zero => exact ⟨call, rfl, spins⟩
  | succ count ih =>
    obtain ⟨middle, first, inside⟩ := @Spins.step register call spins
    obtain ⟨after, rest, still⟩ := ih inside
    exact ⟨after, bind_ok.mpr ⟨middle, first, rest⟩, still⟩

private theorem reads_again {guard : MaskedInterruptGuard} {reads : Nat} (more : Nat) :
    steps register (2 * more) ⟨⟨false⟩, .load guard, reads⟩ =
      .ok ⟨⟨false⟩, .load guard, reads + more⟩ := by
  induction more generalizing reads with
  | zero => rfl
  | succ more ih =>
    have tests : step register ⟨⟨false⟩, .test guard (register reads), reads + 1⟩ =
      .ok ⟨⟨false⟩, .load guard, reads + 1⟩ :=
      ite_self _
    refine bind_ok.mpr ⟨⟨⟨false⟩, .test guard (register reads), reads + 1⟩, rfl,
      bind_ok.mpr ⟨_, tests, ?_⟩⟩
    rw [← Nat.add_assoc, Nat.add_right_comm]
    exact ih

def Acquires (register : Nat → UInt32) (core : Core) : Prop :=
  ∃ first count, register first ≠ 0 ∧ (∀ earlier < first, register earlier = 0) ∧
    steps register count (lock core) = .ok ⟨core, .returned, first + 1⟩

theorem lock_spins (register : Nat → UInt32) (core : Core) (count : Nat) :
    (∃ after, steps register count (lock core) = .ok after ∧ after.point ≠ .returned) ∧
      ∃ more after, steps register more (lock core) = .ok after ∧ after.reads = count := by
  obtain ⟨guard, entered⟩ := step_entry register core
  constructor
  · cases count with
    | zero => exact ⟨lock core, rfl, by rintro ⟨⟩⟩
    | succ count =>
      obtain ⟨after, ran, still⟩ := @Spins.run register _ .load count
      refine ⟨after, bind_ok.mpr ⟨_, entered, ran⟩, ?_⟩
      cases still <;> rintro ⟨⟩
  · exact ⟨2 * count + 1, ⟨⟨false⟩, .load guard, 0 + count⟩,
      bind_ok.mpr ⟨_, entered, reads_again count⟩, Nat.zero_add count⟩

/-- Whatever the register gives, the lock is not acquired by a call that returns. -/
theorem lock_never_returns (register : Nat → UInt32) (core : Core) : ¬Acquires register core := by
  rintro ⟨first, count, -, -, returned⟩
  obtain ⟨⟨after, ran, runs⟩, -⟩ := lock_spins register core count
  exact runs (Except.ok.inj (ran.symm.trans returned) ▸ rfl)

/-- A lock that is free at once. -/
theorem free_lock_spins : (fun _ => 1 : Nat → UInt32) 0 ≠ 0 ∧ ¬Acquires (fun _ => 1) ⟨true⟩ := by
  refine ⟨by decide, ?_⟩
  rintro ⟨first, count, -, -, returned⟩
  obtain ⟨⟨after, ran, runs⟩, -⟩ := lock_spins (fun _ => 1) ⟨true⟩ count
  exact runs (Except.ok.inj (ran.symm.trans returned) ▸ rfl)

end HardwareSpinLock
end PicoOs.Kernel
