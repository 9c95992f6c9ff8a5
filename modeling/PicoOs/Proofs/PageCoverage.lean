import PicoOs.Library.Tiling
import PicoOs.Proofs.PageDiscovery

/-! How much of its area `discover_blocks` finds. The loop tries each power once, and what
remains of the area stays smaller than the next block that it tries, so that less than a page
is left in the end. -/

namespace PicoOs.Kernel
open Library PageAllocator

structure Covers (areaStart areaEnd : Nat) (blocks : List PageRange) : Prop where
  disjoint : blocks.Pairwise fun left right => Disjoint left.cells right.cells
  aligned : ∀ block ∈ blocks, block.base % pageSize = 0
  inside : ∀ block ∈ blocks, block.cells ⊆ Set.Ico areaStart areaEnd
  powers : ∀ block ∈ blocks, pagePower ≤ block.power ∧ block.power ≤ maxPower
  single : (blocks.map PageRange.power).Nodup
  uncovered : (Set.Ico (pageUp areaStart) areaEnd \ covered PageRange.cells blocks).ncard < pageSize

private theorem covered_ico {blocks : List PageRange} {first last : Nat}
    (tiles : Tiles PageRange.base PageRange.size first blocks last) :
    covered PageRange.cells blocks = Set.Ico first last :=
  Set.ext fun _ => tiles.covers

private theorem uncovered_lt {first last stop bound : Nat} (left : stop - last < bound) :
    (Set.Ico first stop \ Set.Ico first last).ncard < bound := by
  have rest : Set.Ico first stop \ Set.Ico first last ⊆ ↑(Finset.Ico last stop) := by
    rintro address ⟨⟨above, under⟩, outside⟩
    rw [Finset.coe_Ico]
    exact ⟨Nat.le_of_not_lt fun less => outside ⟨above, less⟩, under⟩
  refine (Set.ncard_le_ncard rest (Finset.finite_toSet _)).trans_lt ?_
  rw [Set.ncard_coe_finset, Nat.card_Ico]
  exact left

/-- Blocks that lie one after the other, from the first page of the area to almost its end. -/
theorem Covers.tiled {areaStart areaEnd last : Nat} {blocks : List PageRange}
    (tiles : Tiles PageRange.base PageRange.size (pageUp areaStart) blocks last)
    (rounds : areaStart ≤ pageUp areaStart)
    (bounded : last ≤ max (pageUp areaStart) areaEnd) (left : areaEnd - last < pageSize)
    (each : ∀ block ∈ blocks, block.base % pageSize = 0 ∧ pagePower ≤ block.power ∧
      block.power ≤ maxPower)
    (single : (blocks.map PageRange.power).Nodup) : Covers areaStart areaEnd blocks where
  disjoint := tiles.ordered.imp fun ends =>
    Set.Ico_disjoint_Ico.mpr (by unfold PageRange.stop; omega)
  aligned block member := (each block member).1
  inside block member := by
    have bounds := tiles.bounds block member
    have positive : 0 < block.size := Nat.two_pow_pos _
    exact Set.Ico_subset_Ico (by omega) (by unfold PageRange.stop; omega)
  powers block member := (each block member).2
  single := single
  uncovered := by
    rw [covered_ico tiles]
    exact uncovered_lt left

namespace PageAllocator
variable {allocator : PageAllocator} {areaStart areaEnd steps : Nat}

def discovered (areaEnd : Nat) : Nat → Nat → List PageRange
  | 0, _ => []
  | steps + 1, areaStart =>
    if fitsBelow areaEnd steps areaStart then
      candidate steps areaStart :: discovered areaEnd steps
        (wrap (areaStart + 2 ^ (pagePower + steps)))
    else discovered areaEnd steps areaStart

def registered (areaStart areaEnd : Nat) : List PageRange :=
  discovered areaEnd (maxPower + 1 - pagePower) (roundToAlignment areaStart pageSize)

private theorem discoverFrom_registers (allocator : PageAllocator)
    (aligned : areaStart % 2 ^ pagePower = 0) :
    discoverFrom areaEnd steps allocator areaStart =
      (discovered areaEnd steps areaStart).foldlM deallocateLocked allocator := by
  induction steps generalizing allocator areaStart with
  | zero => rfl
  | succ steps ih =>
    by_cases found : fitsBelow areaEnd steps areaStart
    · rw [discoverFrom, if_pos (show _ ≤ areaEnd from found), if_pos aligned, discovered,
        if_pos found, List.foldlM_cons, candidate]
      simp only [ih _ (pageAligned_wrap aligned)]
    · rw [discoverFrom_skipped found, discovered, if_neg found, ih allocator aligned]

private theorem discoverBlocks_registers (allocator : PageAllocator) (areaStart areaEnd : Nat) :
    discoverBlocks allocator areaStart areaEnd =
      (registered areaStart areaEnd).foldlM deallocateLocked allocator := by
  refine discoverFrom_registers allocator ?_
  rw [roundToAlignment_page]
  exact Nat.mul_mod_left _ _

/-- The blocks lie one after the other, each smaller than the one before, and leave less than a
page. -/
theorem discovered_tiles (aligned : areaStart % pageSize = 0)
    (room : areaStart + 2 ^ maxPower < 2 ^ 32)
    (below : areaEnd + 2 ^ maxPower < 2 ^ 32) (few : pagePower + steps ≤ maxPower + 1)
    (remainder : areaEnd - areaStart < 2 ^ (pagePower + steps)) :
    ∃ last, Tiles PageRange.base PageRange.size areaStart
      (discovered areaEnd steps areaStart) last ∧
      areaEnd - last < pageSize ∧ last ≤ max areaStart areaEnd ∧
      (∀ block ∈ discovered areaEnd steps areaStart,
        block.base % pageSize = 0 ∧ pagePower ≤ block.power ∧ block.power < pagePower + steps) ∧
      ((discovered areaEnd steps areaStart).map PageRange.power).Nodup := by
  induction steps generalizing areaStart with
  | zero => exact ⟨areaStart, rfl, remainder, le_max_left .., by simp [discovered], .nil⟩
  | succ steps ih =>
    have double : 2 ^ (pagePower + (steps + 1)) = 2 ^ (pagePower + steps) * 2 :=
      pow_succ 2 (pagePower + steps)
    have most : 2 ^ (pagePower + steps) ≤ 2 ^ maxPower :=
      Nat.pow_le_pow_right (by decide) (by omega)
    have ends : wrap (areaStart + 2 ^ (pagePower + steps)) = areaStart + 2 ^ (pagePower + steps) :=
      wrap_of_lt (by omega)
    by_cases found : fitsBelow areaEnd steps areaStart
    · have fits : areaStart + 2 ^ (pagePower + steps) ≤ areaEnd := ends ▸ found
      have next : (areaStart + 2 ^ (pagePower + steps)) % pageSize = 0 :=
        ends ▸ @pageAligned_wrap areaStart steps aligned
      obtain ⟨last, tiles, left, bounded, each, single⟩ := ih next (by omega) (by omega) (by omega)
      rw [discovered, if_pos found, ends]
      refine ⟨last, ⟨rfl, tiles⟩, left, by omega, ?_, ?_⟩
      · intro block member
        obtain rfl | later := List.mem_cons.mp member
        · exact ⟨aligned, Nat.le_add_right _ _, Nat.lt_succ_self _⟩
        · obtain ⟨pages, least, less⟩ := each block later
          exact ⟨pages, least, Nat.lt_succ_of_lt less⟩
      · refine List.nodup_cons.mpr ⟨fun same => ?_, single⟩
        obtain ⟨block, later, equal⟩ := List.mem_map.mp same
        exact Nat.lt_irrefl _ (equal ▸ (each block later).2.2)
    · have misses : areaEnd < areaStart + 2 ^ (pagePower + steps) := by
        refine Nat.lt_of_not_le fun fits => found ?_
        rw [fitsBelow, ends]
        exact fits
      obtain ⟨last, tiles, left, bounded, each, single⟩ := ih aligned room (by omega) (by omega)
      rw [discovered, if_neg found]
      exact ⟨last, tiles, left, bounded,
        fun block member => (each block member).imp_right (.imp_right Nat.lt_succ_of_lt), single⟩

private theorem discovered_covers (rounds : areaStart ≤ pageUp areaStart)
    (room : pageUp areaStart + 2 ^ maxPower < 2 ^ 32)
    (below : areaEnd + 2 ^ maxPower < 2 ^ 32) (few : pagePower + steps ≤ maxPower + 1)
    (remainder : areaEnd - pageUp areaStart < 2 ^ (pagePower + steps)) :
    Covers areaStart areaEnd (discovered areaEnd steps (pageUp areaStart)) := by
  obtain ⟨last, tiles, left, bounded, each, single⟩ :=
    discovered_tiles (Nat.mul_mod_left _ _) room below few remainder
  refine .tiled tiles rounds bounded left (fun block member => ?_) single
  obtain ⟨aligned, least, less⟩ := each block member
  exact ⟨aligned, least, by omega⟩

/-- Past the end of the address space the blocks seem to fit, since their ends wrap around. -/
theorem registered_wrapped (below : areaEnd + 2 ^ maxPower < 2 ^ 32)
    (rounds : pageUp areaStart ≤ areaEnd + pageSize)
    (small : areaStart + pageSize ≤ 2 ^ 32) (wraps : 2 ^ 32 ≤ pageUp areaStart + 2 ^ maxPower) :
    ⟨maxPower, pageUp areaStart⟩ ∈ registered areaStart areaEnd := by
  have end' : wrap (pageUp areaStart + 2 ^ maxPower) = pageUp areaStart +
    2 ^ maxPower - 2 ^ 32 := by
    unfold wrap
    omega
  have found : fitsBelow areaEnd (maxPower - pagePower) (pageUp areaStart) := by
    unfold fitsBelow
    rw [show pagePower + (maxPower - pagePower) = maxPower from rfl, end']
    unfold maxPower pageSize at *
    omega
  rw [registered, roundToAlignment_pageUp small,
    show maxPower + 1 - pagePower = (maxPower - pagePower) + 1 from rfl, discovered,
    if_pos found]
  exact List.mem_cons_self

/-- The blocks of an area cover it exactly if rounding up its start does not lead past the last
place for a largest block. -/
theorem discover_covers_iff (allocator : PageAllocator) (area : areaStart ≤ areaEnd)
    (small : areaEnd - pageUp areaStart < 2 ^ (maxPower + 1))
    (below : areaEnd + 2 ^ maxPower < 2 ^ 32) :
    discoverBlocks allocator areaStart areaEnd =
      (registered areaStart areaEnd).foldlM deallocateLocked allocator ∧
      (Covers areaStart areaEnd (registered areaStart areaEnd) ↔
        pageUp areaStart + 2 ^ maxPower < 2 ^ 32) := by
  refine ⟨discoverBlocks_registers allocator areaStart areaEnd, ?_⟩
  have rounds : areaStart ≤ pageUp areaStart ∧ pageUp areaStart ≤ areaStart + (pageSize - 1) := by
    unfold pageUp pageSize
    omega
  have inRange : areaStart + pageSize ≤ 2 ^ 32 := by
    unfold maxPower pageSize at *
    omega
  constructor
  · intro covers
    refine Nat.lt_of_not_le fun wraps => ?_
    have member := registered_wrapped below (by omega) inRange wraps
    have beyond := covers.inside _ member ⟨Nat.le_refl _,
      Nat.lt_add_of_pos_right (Nat.two_pow_pos _)⟩
    have last := beyond.2
    dsimp only at last
    omega
  · intro room
    rw [registered, roundToAlignment_pageUp inRange]
    exact discovered_covers rounds.1 room below (Nat.le_refl _) small

/-- The heap of the kernel, which does not begin at a page. -/
theorem discover_covers_iff_heap :
    Covers 0x20010064 0x20040000 (registered 0x20010064 0x20040000) :=
  (discover_covers_iff ⟨fun _ => 0,
    fun _ => 0⟩ (by decide) (by decide) (by decide)).2.mpr (by decide)

/-- An area inside of the last page below `2^32 - 2^max_power`: all blocks that are found lie
elsewhere. -/
theorem discover_outside : (0xFFF7FF01 ≤ 0xFFF7FFFF ∧
    0xFFF7FFFF - pageUp 0xFFF7FF01 < 2 ^ (maxPower + 1) ∧
    0xFFF7FFFF + 2 ^ maxPower < 2 ^ 32) ∧
    ¬Covers 0xFFF7FF01 0xFFF7FFFF (registered 0xFFF7FF01 0xFFF7FFFF) := by
  refine ⟨by decide, fun covers => ?_⟩
  have member : ⟨maxPower, pageUp 0xFFF7FF01⟩ ∈ registered 0xFFF7FF01 0xFFF7FFFF :=
    registered_wrapped (by decide) (by decide) (by decide) (by decide)
  have beyond : pageUp 0xFFF7FF01 < 0xFFF7FFFF :=
    (covers.inside _ member ⟨Nat.le_refl _, Nat.lt_add_of_pos_right (Nat.two_pow_pos _)⟩).2
  exact absurd beyond (by decide)

end PageAllocator
end PicoOs.Kernel
