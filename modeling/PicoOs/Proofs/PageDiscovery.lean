import PicoOs.Proofs.PageLists

/-! What the constructor finds in its area. The loop takes at most one block of each
power, so the blocks lie one after the other, and are aligned if the first one is. -/

namespace PicoOs.Kernel
open Library PageAllocator

/-- Rounding up to a page, as computed with 32 bits. -/
theorem roundToAlignment_page (value : Nat) :
    roundToAlignment value pageSize = wrap (minus value 1 + pageSize) / pageSize * pageSize := by
  have small : wrap (minus value 1 + pageSize) < 2 ^ 32 := Nat.mod_lt _ (by decide)
  rw [roundToAlignment]
  generalize wrap (minus value 1 + pageSize) = sum at small ⊢
  have mask : minus 0 pageSize = (2 ^ 24 - 1) <<< 8 := by decide
  have page : sum / pageSize * pageSize = (sum >>> 8) <<< 8 := by
    rw [Nat.shiftLeft_eq, Nat.shiftRight_eq_div_pow]
    rfl
  rw [mask, page]
  apply Nat.eq_of_testBit_eq
  intro bit
  rw [Nat.testBit_and, Nat.testBit_shiftLeft, Nat.testBit_shiftLeft, Nat.testBit_shiftRight,
    Nat.testBit_two_pow_sub_one]
  by_cases low : bit ≥ 8
  · rw [Nat.add_sub_cancel' low]
    by_cases high : bit < 32
    · have inside : bit - 8 < 24 := by omega
      simp [low, inside]
    · have large : sum < 2 ^ bit :=
        Nat.lt_of_lt_of_le small (Nat.pow_le_pow_right (by decide) (by omega))
      simp [Nat.testBit_lt_two_pow large]
  · simp [low]

def pageUp (address : Nat) : Nat := (address + (pageSize - 1)) / pageSize * pageSize

theorem roundToAlignment_pageUp {address : Nat} (small : address + pageSize ≤ 2 ^ 32) :
    roundToAlignment address pageSize = pageUp address := by
  have sum : wrap (minus address 1 + pageSize) = address + (pageSize - 1) := by
    unfold wrap minus pageSize at *
    omega
  rw [roundToAlignment_page, sum, pageUp]

theorem pageUp_ge (address : Nat) : address ≤ pageUp address := by
  unfold pageUp pageSize
  omega

def candidate (steps areaStart : Nat) : PageRange := ⟨pagePower + steps, areaStart⟩

def fitsBelow (areaEnd steps areaStart : Nat) : Prop :=
  wrap (areaStart + 2 ^ (pagePower + steps)) ≤ areaEnd

instance (areaEnd steps areaStart : Nat) : Decidable (fitsBelow areaEnd steps areaStart) := by
  unfold fitsBelow
  infer_instance

namespace PageAllocator
variable {good : PageRange → Prop} {space : Set Nat} {allocator after : PageAllocator}
  {free : List PageRange}
  {areaStart areaEnd steps power : Nat}

theorem pageAligned_wrap (aligned : areaStart % 2 ^ pagePower = 0) :
    wrap (areaStart + 2 ^ (pagePower + steps)) % 2 ^ pagePower = 0 := by
  have first : 2 ^ pagePower ∣ areaStart + 2 ^ (pagePower + steps) :=
    Nat.dvd_add (Nat.dvd_of_mod_eq_zero aligned) (Nat.pow_dvd_pow 2 (Nat.le_add_right _ _))
  have machine : 2 ^ pagePower ∣ 2 ^ 32 := Nat.pow_dvd_pow 2 (by decide)
  exact Nat.mod_eq_zero_of_dvd ((Nat.dvd_mod_iff machine).mpr first)

theorem discoverFrom_found (found : fitsBelow areaEnd steps areaStart)
    (aligned : areaStart % 2 ^ pagePower = 0)
    (few : pagePower + steps ≤ maxPower) :
    discoverFrom areaEnd (steps + 1) allocator areaStart =
      discoverFrom areaEnd steps (allocator.pushed (candidate steps areaStart))
        (wrap (areaStart + 2 ^ (pagePower + steps))) := by
  have words : areaStart % 4 = 0 := by
    unfold pagePower at aligned
    omega
  have pushed : allocator.deallocateLocked ⟨pagePower + steps, areaStart⟩ =
      .ok (allocator.pushed ⟨pagePower + steps, areaStart⟩) := deallocateLocked_eq few words
  simp only [discoverFrom, if_pos (show _ ≤ areaEnd from found), if_pos aligned, pushed, candidate]
  rfl

theorem discoverFrom_skipped (skipped : ¬ fitsBelow areaEnd steps areaStart) :
    discoverFrom areaEnd (steps + 1) allocator areaStart =
      discoverFrom areaEnd steps allocator areaStart := by
  simp only [discoverFrom, if_neg (show ¬ _ ≤ areaEnd from skipped)]

/-- The loop never fails, and leaves the lists of larger powers alone. -/
theorem discoverFrom_ok (aligned : areaStart % 2 ^ pagePower = 0)
    (few : pagePower + steps ≤ maxPower + 1) :
    ∃ after, discoverFrom areaEnd steps allocator areaStart = .ok after ∧
      ∀ power, pagePower + steps ≤ power → after.blocks power = allocator.blocks power := by
  induction steps generalizing allocator areaStart with
  | zero => exact ⟨allocator, rfl, fun _ _ => rfl⟩
  | succ steps ih =>
    by_cases found : fitsBelow areaEnd steps areaStart
    · rw [discoverFrom_found found aligned (by omega)]
      obtain ⟨after, done, larger⟩ := ih (pageAligned_wrap aligned) (by omega)
      refine ⟨after, done, ?_⟩
      intro power above
      have different : power ≠ (candidate steps areaStart).power := by
        simp only [candidate]
        omega
      exact (larger power (by omega)).trans (if_neg different)
    · rw [discoverFrom_skipped found]
      obtain ⟨after, done, larger⟩ := ih aligned (by omega)
      exact ⟨after, done, fun power above => larger power (by omega)⟩

structure Walk (good : PageRange → Prop) (areaEnd : Nat) (ahead : Nat → Nat → Prop)
    (region : Nat → Nat → Set Nat) : Prop where
  aligned : ∀ {steps areaStart}, ahead steps areaStart → areaStart % 2 ^ pagePower = 0
  bounded : ∀ {steps areaStart}, ahead (steps + 1) areaStart → pagePower + steps ≤ maxPower
  found : ∀ {steps areaStart}, ahead (steps + 1) areaStart → fitsBelow areaEnd steps areaStart →
    ahead steps (wrap (areaStart + 2 ^ (pagePower + steps))) ∧
    Disjoint (candidate steps areaStart).cells (region steps (wrap (areaStart + 2 ^ (pagePower + steps)))) ∧
    (candidate steps areaStart).cells ∪ region steps (wrap (areaStart + 2 ^ (pagePower + steps))) ⊆
      region (steps + 1) areaStart ∧
    (areaStart ≠ 0 → (candidate steps areaStart).Placed ∧ good (candidate steps areaStart))
  skipped : ∀ {steps areaStart}, ahead (steps + 1) areaStart → ¬ fitsBelow areaEnd steps areaStart →
    ahead steps areaStart ∧ region steps areaStart ⊆ region (steps + 1) areaStart

/-- A block at the null address is lost: the list it is put on is empty before and after. -/
theorem Holds.push_null (holds : Holds good space allocator free []) {range : PageRange}
    (null : range.base = 0)
    (apart : Disjoint space range.cells) (word : linkPower ≤ range.power)
    (absent : ∀ block ∈ free, block.power ≠ range.power) :
    Holds good space (allocator.pushed range) free [] where
  lists := by
    have kept : ∀ block ∈ free,
        Memory.Agree allocator.memory (allocator.pushed range).memory block.base
          (block.base + 4) := by
      intro block member
      have inside : block.cells ⊆ space := holds.packs.subset (by simp [member])
      have separate := PageRange.apart_iff.mp (apart.mono_left inside)
      have positive := (holds.placed block (by simp [member])).1.nonnull
      have power : 2 ^ linkPower ≤ 2 ^ range.power := Nat.pow_le_pow_right (by decide) word
      have size := Nat.two_pow_pos block.power
      unfold PageRange.stop PageRange.size linkPower at *
      exact pushed_agree (by omega)
    have empty : bases range.power free = [] := by
      rw [bases, List.filter_eq_nil_iff.mpr, List.map_nil]
      exact fun block member => by simpa using absent block member
    intro power
    have linked := holds.lists.congr kept power
    by_cases same : power = range.power
    · subst same
      rw [empty]
      exact (if_pos rfl).trans null
    · have head : (allocator.pushed range).blocks power = allocator.blocks power := if_neg same
      rw [head]
      exact linked
  packs := holds.packs
  placed := holds.placed

/-- A block outside of the space joins the blocks on the lists. -/
theorem Holds.push_new (holds : Holds good space allocator free []) {range : PageRange}
    (placed : range.Placed)
    (fine : good range) (apart : Disjoint range.cells space) :
    Holds good (range.cells ∪ space) (allocator.pushed range) (range :: free) [] where
  lists := by
    refine holds.lists.push placed (fun block member => (holds.placed block (by simp [member])).1) ?_
    exact fun block member => apart.mono_right (holds.packs.subset (by simp [member]))
  packs := holds.packs.extend apart
  placed other member := by
    rcases List.mem_cons.mp member with rfl | present
    · exact ⟨placed, fine⟩
    · exact holds.placed other present

/-- What the loop has put on the lists when it ends. -/
theorem Walk.discoverFrom {ahead : Nat → Nat → Prop} {region : Nat → Nat → Set Nat}
    (walk : Walk good areaEnd ahead region) (start : ahead steps areaStart)
    (holds : Holds good space allocator free [])
    (apart : Disjoint space (region steps areaStart))
    (larger : ∀ block ∈ free, pagePower + steps ≤ block.power) :
    ∃ after found final, PageAllocator.discoverFrom areaEnd steps allocator areaStart = .ok after ∧
      Holds good final after found [] ∧ final ⊆ space ∪ region steps areaStart := by
  induction steps generalizing allocator free space areaStart with
  | zero => exact ⟨allocator, free, space, rfl, holds, Set.subset_union_left⟩
  | succ steps ih =>
    have few := walk.bounded start
    by_cases found : fitsBelow areaEnd steps areaStart
    · obtain ⟨next, separate, inside, placed⟩ := walk.found start found
      rw [discoverFrom_found found (walk.aligned start) few]
      obtain ⟨here, later⟩ := Set.union_subset_iff.mp inside
      by_cases null : areaStart = 0
      · have lost := holds.push_null null (apart.mono_right here)
          (Nat.le_add_right_of_le (by decide))
          (fun block member same => absurd (larger block member) (by rw [same]; simp [candidate]))
        obtain ⟨after, blocks, final, done, kept, within⟩ :=
          ih next lost (apart.mono_right later) (fun block member => Nat.le_of_succ_le (larger block member))
        exact ⟨after, blocks, final, done, kept,
          within.trans (Set.union_subset_union_right _ later)⟩
      · obtain ⟨fits, fine⟩ := placed null
        have joined := holds.push_new fits fine (apart.mono_right here).symm
        obtain ⟨after, blocks, final, done, kept, within⟩ := ih next joined
          (Set.disjoint_union_left.mpr ⟨separate, apart.mono_right later⟩) (by
            intro block member
            rcases List.mem_cons.mp member with rfl | present
            · exact Nat.le_refl _
            · exact Nat.le_of_succ_le (larger block present))
        refine ⟨after, blocks, final, done, kept, within.trans ?_⟩
        exact Set.union_subset (Set.union_subset (here.trans Set.subset_union_right) Set.subset_union_left)
          (later.trans Set.subset_union_right)
    · obtain ⟨next, inside⟩ := walk.skipped start found
      rw [discoverFrom_skipped found]
      obtain ⟨after, blocks, final, done, kept, within⟩ :=
        ih next holds (apart.mono_right inside) (fun block member => Nat.le_of_succ_le (larger block member))
      exact ⟨after, blocks, final, done, kept, within.trans (Set.union_subset_union_right _ inside)⟩

theorem Holds.empty (memory : Memory) : Holds good ∅ { memory, blocks := fun _ => 0 } [] [] where
  lists _ := rfl
  packs := ⟨.nil, by simp [covered]⟩
  placed := by simp

end PageAllocator
end PicoOs.Kernel
