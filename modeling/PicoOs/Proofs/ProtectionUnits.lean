import PicoOs.Kernel.Protection

/-! `setup_mpu` leaves nothing behind of the regions of another thread, and what the regions of
a process let it do. -/

namespace PicoOs.Kernel.MPU
open Library.Protection

def Cleared (unit : ProtectionUnit) (index : Nat) : Prop :=
  (unit.regions index).attributes.enable = false

section
variable {unit after : ProtectionUnit} {index other : Nat} {registers : RegionRegisters}
  {list : List RegionRegisters}

private theorem clearRegion_regions :
    (clearRegion unit index).regions = Function.update unit.regions index ⟨0,
      ⟨false, 0, 0, 0, false⟩⟩ := by
  simp only [clearRegion, ProtectionUnit.select, ProtectionUnit.writeBase,
    ProtectionUnit.writeAttributes, Bool.false_eq_true,
    if_false, Function.update_self, Function.update_idem]

private theorem clearRegion_cleared (cleared : index = other ∨ Cleared unit other) :
    Cleared (clearRegion unit index) other := by
  rw [Cleared, clearRegion_regions]
  by_cases same : other = index
  · rw [same, Function.update_self]
  · rw [Function.update_of_ne same]
    exact cleared.resolve_left fun here => same here.symm

private theorem foldl_cleared {indices : List Nat}
    (cleared : other ∈ indices ∨ Cleared unit other) :
    Cleared (indices.foldl clearRegion unit) other := by
  induction indices generalizing unit with
  | nil => exact cleared.resolve_left List.not_mem_nil
  | cons index indices ih =>
    rw [List.foldl_cons]
    refine ih ?_
    rw [List.mem_cons] at cleared
    rcases cleared with (same | later) | before
    · exact .inr (clearRegion_cleared (.inl same.symm))
    · exact .inl later
    · exact .inr (clearRegion_cleared (.inr before))

def Plain (registers : RegionRegisters) : Prop :=
  registers.rbar.region = 0 ∧ registers.rbar.valid = false

theorem programRegion_regions (unit : ProtectionUnit) (index : Nat) (plain : Plain registers) :
    ∃ after, programRegion unit (registers, index) = some after ∧
    after.regions = Function.update unit.regions index registers.region := by
  refine ⟨_, if_pos plain, ?_⟩
  simp only [ProtectionUnit.writeBase, ProtectionUnit.writeAttributes, if_true,
    Function.update_self, Function.update_idem,
    RegionRegisters.region]

/-- Regions are programmed one after the other, those above stay cleared. -/
theorem foldlM_programRegion (unit : ProtectionUnit) (plain : ∀ registers ∈ list, Plain registers)
    (start : Nat) :
    ∃ after, (list.zipIdx start).foldlM programRegion unit = some after ∧
      (∀ index (inside : index < list.length), after.regions (start + index) = list[index].region) ∧
      ∀ other, other < start ∨ start + list.length ≤ other →
      after.regions other = unit.regions other := by
  induction list generalizing unit start with
  | nil =>
      exact ⟨unit, rfl, fun index inside => absurd inside (Nat.not_lt_zero _), fun other _ => rfl⟩
  | cons registers list ih =>
    rw [List.forall_mem_cons] at plain
    obtain ⟨middle, programmed, regions⟩ := programRegion_regions unit start plain.1
    obtain ⟨after, rest, inside, outside⟩ := ih middle plain.2 (start + 1)
    refine ⟨after, ?_, fun index small => ?_, fun other apart => ?_⟩
    · rw [List.zipIdx_cons, List.foldlM_cons, programmed]
      exact rest
    · cases index with
      | zero =>
        rw [Nat.add_zero, outside start (.inl (Nat.lt_succ_self _)), regions, Function.update_self]
        rfl
      | succ index =>
        have place : start + (index + 1) = start + 1 + index := by omega
        rw [place]
        exact inside index (Nat.lt_of_succ_lt_succ small)
    · rw [List.length_cons] at apart
      rw [outside other (by omega), regions, Function.update_of_ne (by omega)]

/-- Afterwards the MPU decides as the list of the regions does, whatever it was programmed for
before. -/
theorem setupMpu_has (nonempty : list ≠ []) (few : list.length ≤ 8)
    (plain : ∀ registers ∈ list, Plain registers) (unit : ProtectionUnit) :
    ∃ after, setupMpu list unit = some after ∧ after.Has (list.map RegionRegisters.region) := by
  have some_regions : ¬list.length = 0 := fun empty => nonempty (List.length_eq_zero_iff.mp empty)
  obtain ⟨after, programmed, inside, outside⟩ :=
    foldlM_programRegion ((List.range 8).foldl clearRegion { unit with enable := false, privdefena := false }) plain 0
  refine ⟨{ after with enable := true, privdefena := true }, ?_, rfl, rfl,
    by rwa [List.length_map], ?_, ?_⟩
  · rw [setupMpu, if_neg some_regions]
    dsimp only
    rw [if_pos few, programmed]
    rfl
  · intro index small
    rw [List.length_map] at small
    rw [List.getElem_map, ← inside index small, Nat.zero_add]
  · intro index above below
    rw [List.length_map] at above
    have kept : after.regions index = _ := outside index (.inr (by omega))
    rw [kept]
    exact foldl_cleared (.inl (List.mem_range.mpr below))

private theorem programRegion_none (odd : ¬Plain registers) :
    programRegion unit (registers, index) = none := if_neg odd

private theorem foldlM_programRegion_none (odd : ∃ registers ∈ list, ¬Plain registers)
    (start : Nat) :
    (list.zipIdx start).foldlM programRegion unit = none := by
  induction list generalizing unit start with
  | nil =>
    obtain ⟨registers, member, -⟩ := odd
    cases member
  | cons registers list ih =>
    rw [List.zipIdx_cons, List.foldlM_cons]
    by_cases plain : Plain registers
    · obtain ⟨middle, programmed, -⟩ := programRegion_regions unit start plain
      obtain ⟨other, member, differs⟩ := odd
      rw [programmed]
      refine ih ⟨other, (List.mem_cons.mp member).resolve_left fun same => ?_, differs⟩ (start + 1)
      exact differs (same ▸ plain)
    · rw [programRegion_none plain]
      rfl

private theorem setupMpu_nil (unit : ProtectionUnit) :
    setupMpu [] unit = some { unit with enable := false } := rfl

/-- The checks of `setup_mpu` fail exactly for too many regions and for regions that are not plain.
Where they pass, the last region that covers an address decides, whatever the MPU was programmed for
before. -/
theorem setupMpu_decides (list : List RegionRegisters) (unit : ProtectionUnit) :
    (setupMpu list unit = none ↔ list ≠ [] ∧ (8 < list.length ∨ ∃ registers ∈ list,
      ¬Plain registers)) ∧
      ∀ after, setupMpu list unit = some after → ∀ privileged access address,
        after.permits privileged access address =
          (list = [] || ProtectionUnit.decides (list.map RegionRegisters.region) privileged access address) := by
  by_cases empty : list = []
  · subst empty
    refine ⟨⟨fun failed => (by rw [setupMpu_nil] at failed; cases failed), fun odd => absurd rfl odd.1⟩, fun after done privileged access address => ?_⟩
    rw [setupMpu_nil] at done
    cases done
    rfl
  · by_cases fine : list.length ≤ 8 ∧ ∀ registers ∈ list, Plain registers
    · obtain ⟨after, done, has⟩ := setupMpu_has empty fine.1 fine.2 unit
      refine ⟨⟨fun failed => (by rw [done] at failed; cases failed), fun odd => ?_⟩, fun other same privileged access address => ?_⟩
      · rcases odd.2 with many | ⟨registers, member, differs⟩
        · exact absurd fine.1 (Nat.not_le.mpr many)
        · exact absurd (fine.2 registers member) differs
      · obtain rfl := Option.some.inj (done.symm.trans same)
        rw [has.permits, decide_eq_false empty, Bool.false_or]
    · have odd : 8 < list.length ∨ ∃ registers ∈ list, ¬Plain registers := by
        by_contra even
        refine fine ⟨Nat.not_lt.mp fun many => even (.inl many), fun registers member => ?_⟩
        exact not_not.mp fun differs => even (.inr ⟨registers, member, differs⟩)
      have failed : setupMpu list unit = none := by
        rw [setupMpu, if_neg fun none => empty (List.length_eq_zero_iff.mp none)]
        dsimp only
        split
        · rename_i few
          rw [foldlM_programRegion_none (odd.resolve_left (Nat.not_lt.mpr few)) 0]
          rfl
        · rfl
      exact ⟨⟨fun _ => ⟨empty, odd⟩, fun _ => failed⟩,
        fun after done => by rw [failed] at done; cases done⟩

end

def dataRegion (range : PageRange) : RegionRegisters :=
  ⟨⟨0, false, range.base >>> 5⟩, ⟨true, range.power - 1, 0, 0b011, true⟩⟩

section
variable {range stack writable : PageRange} {unit : ProtectionUnit}

theorem computeSize_power {power : Nat} (positive : 1 ≤ power) :
    computeSize (2 ^ power) = some (power - 1) := by
  rw [computeSize, Nat.log2_two_pow, if_pos ⟨rfl, positive⟩]

theorem stackRegion_eq (large : pagePower ≤ range.power) :
    stackRegion range = some (dataRegion range) := by
  rw [stackRegion, PageRange.size, computeSize_power (Nat.le_trans (by decide) large)]
  rfl

theorem ramRegion_eq (large : pagePower ≤ range.power) (page : range.base % pageSize = 0) :
    ramRegion range = some (dataRegion range) := by
  rw [ramRegion, if_pos page, PageRange.size, computeSize_power (Nat.le_trans (by decide) large)]
  rfl

private theorem dataRegion_covers (large : pagePower ≤ range.power)
    (aligned : range.size ∣ range.base) (address : Nat) :
    (dataRegion range).region.covers address = true ↔ address ∈ range.cells := by
  have power : range.power - 1 + 1 = range.power :=
    Nat.sub_add_cancel (Nat.le_trans (by decide) large)
  have word : 2 ^ 5 ∣ range.base :=
    Nat.dvd_trans (Nat.pow_dvd_pow 2 (Nat.le_trans (by decide) large)) aligned
  have bytes : (dataRegion range).region.bytes = range.size := congrArg (2 ^ ·) power
  have start : (dataRegion range).region.start = range.base := by
    have addr : (dataRegion range).region.addr * 2 ^ 5 = range.base := by
      rw [show (dataRegion range).region.addr = range.base >>> 5 from rfl,
        Nat.shiftRight_eq_div_pow, Nat.div_mul_cancel word]
    rw [Region.start, addr, bytes, Nat.div_mul_cancel aligned]
  simp only [Region.covers, start, bytes,
    show (dataRegion range).region.attributes = ⟨true, range.power - 1, 0, 0b011, true⟩ from rfl,
    Nat.zero_testBit, Bool.not_false, Bool.and_true, Bool.true_and, decide_eq_true_eq]
  exact Iff.rfl

private theorem flashRegion_covers (address : Nat) :
    flashRegion.region.covers address = true ↔ 0x10000000 ≤ address ∧ address < 0x10200000 := by
  simp only [Region.covers, show flashRegion.region.start = 0x10000000 by decide, show flashRegion.region.bytes = 0x200000 by decide,
    show flashRegion.region.attributes = ⟨true, 20, 0, 0b111, false⟩ from rfl, Nat.zero_testBit,
      Bool.not_false, Bool.and_true,
    Bool.true_and, decide_eq_true_eq]

private theorem romRegion_covers (address : Nat) :
    romRegion.region.covers address = true ↔ address < 0x4000 := by
  simp only [Region.covers, show romRegion.region.start = 0 by decide, show romRegion.region.bytes = 0x4000 by decide,
    show romRegion.region.attributes = ⟨true, 13, 0, 0b111, false⟩ from rfl, Nat.zero_testBit,
      Bool.not_false, Bool.and_true,
    Bool.true_and, decide_eq_true_eq, Nat.zero_le, true_and, Nat.zero_add]

/-- The regions of a process whose executable was loaded. -/
def processRegions (stack writable : PageRange) : List RegionRegisters :=
  [flashRegion, dataRegion stack, dataRegion writable, romRegion]

/-- What its regions let a process do at an address, depending on whether it is one of its own. The
region of the ROM decides before the others, and the one of the flash memory after them. -/
def Lets (own : Prop) (address : Nat) : Access → Prop
  | .read => own ∨ address < 0x4000 ∨ 0x10000000 ≤ address ∧ address < 0x10200000
  | .write => own ∧ 0x4000 ≤ address
  | .execute => address < 0x4000 ∨ 0x10000000 ≤ address ∧ address < 0x10200000 ∧ ¬own

private theorem dataRegion_allows (access : Access) :
    (dataRegion range).region.allows false access = true ↔ access ≠ .execute := by
  cases access <;> simp [Region.allows, RegionRegisters.region, dataRegion]

private theorem romRegion_allows (access : Access) :
    romRegion.region.allows false access = true ↔ access ≠ .write := by
  cases access <;> decide

private theorem flashRegion_allows (access : Access) :
    flashRegion.region.allows false access = true ↔ access ≠ .write := by
  cases access <;> decide

theorem processRegions_permits
    (has : unit.Has ((processRegions stack writable).map RegionRegisters.region))
    (stackLarge : pagePower ≤ stack.power) (stackAligned : stack.size ∣ stack.base)
    (writableLarge : pagePower ≤ writable.power) (writableAligned : writable.size ∣ writable.base)
    (access : Access) (address : Nat) :
    unit.permits false access address = true ↔
    Lets (address ∈ stack.cells ∨ address ∈ writable.cells) address access := by
  have inStack := dataRegion_covers stackLarge stackAligned address
  have inWritable := dataRegion_covers writableLarge writableAligned address
  have inFlash := flashRegion_covers address
  have inRom := romRegion_covers address
  rw [has.permits, ProtectionUnit.decides]
  simp only [processRegions, List.map_cons, List.map_nil, List.reverse_cons, List.reverse_nil,
    List.nil_append, List.cons_append,
    List.find?_cons, List.find?_nil]
  cases rom : romRegion.region.covers address with
  | true =>
    have low := inRom.mp rom
    have below := Nat.not_le.mpr low
    dsimp only
    rw [romRegion_allows]
    cases access <;> simp [Lets, low, below]
  | false =>
    have high : ¬address < 0x4000 := fun low => Bool.false_ne_true (rom.symm.trans (inRom.mpr low))
    have above := Nat.not_lt.mp high
    cases ram : (dataRegion writable).region.covers address with
    | true =>
      have own := inWritable.mp ram
      dsimp only
      rw [dataRegion_allows]
      cases access <;> simp [Lets, own, high, above]
    | false =>
      have other : address ∉ writable.cells :=
        fun own => Bool.false_ne_true (ram.symm.trans (inWritable.mpr own))
      cases data : (dataRegion stack).region.covers address with
      | true =>
        have own := inStack.mp data
        dsimp only
        rw [dataRegion_allows]
        cases access <;> simp [Lets, own, high, above]
      | false =>
        have foreign : address ∉ stack.cells :=
          fun own => Bool.false_ne_true (data.symm.trans (inStack.mpr own))
        cases flash : flashRegion.region.covers address with
        | true =>
          have inside := inFlash.mp flash
          dsimp only
          rw [flashRegion_allows]
          cases access <;> simp [Lets, other, foreign, inside, high]
        | false =>
          have outside : ¬(0x10000000 ≤ address ∧ address < 0x10200000) :=
            fun inside => Bool.false_ne_true (flash.symm.trans (inFlash.mpr inside))
          dsimp only
          cases access <;> simp [Lets, other, foreign, outside, high]

end

end PicoOs.Kernel.MPU
