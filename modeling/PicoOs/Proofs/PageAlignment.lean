import PicoOs.Kernel.Regions
import PicoOs.Proofs.PageDiscovery
import PicoOs.Proofs.PageRuns

/-! When all ranges are naturally aligned. Everything depends on the first block the
constructor finds: all later blocks and all halves inherit the alignment of that one. -/

namespace PicoOs.Kernel
open Library PageAllocator

namespace PageRange

/-- A range is naturally aligned, its MPU region is the range, and a ring stays in it. -/
structure Natural (range : PageRange) : Prop where
  aligned : range.base % range.size = 0
  region : range.base % pageSize = 0 → ∃ region, MPU.regionOf range = some region ∧
    region.cells = range.cells
  ring : ∀ count, (DMA.ringNext range.power)^[count] range.base ∈ range.cells

private theorem ring_stays {range : PageRange} (aligned : range.size ∣ range.base) (count : Nat) :
    (DMA.ringNext range.power)^[count] range.base ∈ range.cells := by
  have positive : 0 < range.size := Nat.two_pow_pos _
  obtain ⟨block, base⟩ := aligned
  induction count with
  | zero => exact mem_cells.mpr ⟨Nat.le_refl _, Nat.lt_add_of_pos_right positive⟩
  | succ count ih =>
    rw [Function.iterate_succ_apply']
    generalize (DMA.ringNext range.power)^[count] range.base = address at ih
    obtain ⟨above, below⟩ := mem_cells.mp ih
    rw [Nat.mul_comm] at base
    have quotient : address / range.size = block := by
      refine (Nat.div_eq_iff positive).mpr ⟨base ▸ above, ?_⟩
      unfold stop at below
      omega
    have wrapped := Nat.mod_lt (address + 1) positive
    have next : DMA.ringNext range.power address = range.base + (address + 1) % range.size := by
      rw [base, ← quotient]
      rfl
    rw [next]
    exact mem_cells.mpr ⟨Nat.le_add_right _ _, Nat.add_lt_add_left wrapped _⟩

private theorem natural_of_dvd {range : PageRange} (word : linkPower ≤ range.power)
    (aligned : range.size ∣ range.base) :
    range.Natural where
  aligned := Nat.mod_eq_zero_of_dvd aligned
  region page := by
    have log : range.size.log2 = range.power := Nat.log2_two_pow
    have positive : 1 ≤ range.power := Nat.le_trans (by decide) word
    have size : range.power - 1 + 1 = range.power := Nat.sub_add_cancel positive
    have low : range.base >>> 5 <<< 5 = range.base := by
      rw [Nat.shiftLeft_eq, Nat.shiftRight_eq_div_pow]
      unfold pageSize at page
      omega
    refine ⟨⟨range.base >>> 5, range.power - 1⟩, ?_, ?_⟩
    · rw [MPU.regionOf, MPU.computeSize, log, if_pos ⟨rfl, positive⟩]
      rfl
    · have base : range.base / 2 ^ range.power * 2 ^ range.power = range.base :=
        Nat.div_mul_cancel aligned
      simp only [MPU.Region.cells, MPU.Region.base, size, low, base]
      rfl
  ring := ring_stays aligned

/-- Natural alignment passes to the halves of a block. -/
theorem halving_dvd : Halving (fun range => range.size ∣ range.base) := by
  intro power base aligned
  have lower : 2 ^ power ∣ base := Nat.dvd_trans (Nat.pow_dvd_pow 2 (Nat.le_succ power)) aligned
  exact ⟨lower, Nat.dvd_add lower (Nat.dvd_refl _)⟩

end PageRange

namespace PageAllocator
variable {allocator : PageAllocator} {areaStart areaEnd steps : Nat}

theorem candidate_aligned {steps areaStart : Nat} (aligned : 2 ^ (pagePower + steps) ∣ areaStart) :
    areaStart % 2 ^ min (pagePower + steps) pagePower = 0 := by
  rw [Nat.min_eq_right (Nat.le_add_right _ _)]
  exact Nat.mod_eq_zero_of_dvd (Nat.dvd_trans (Nat.pow_dvd_pow 2 (Nat.le_add_right _ _)) aligned)

/-- A multiple of a power of two below the end of the address space leaves room for that power. -/
theorem room_above {power address : Nat} (small : power ≤ 32) (aligned : 2 ^ power ∣ address)
    (below : address < 2 ^ 32) : address + 2 ^ power ≤ 2 ^ 32 := by
  have whole : 2 ^ power ∣ 2 ^ 32 := Nat.pow_dvd_pow 2 small
  have gap := Nat.le_of_dvd (Nat.sub_pos_of_lt below) (Nat.dvd_sub whole aligned)
  omega

/-- From an aligned start the remaining blocks lie in the next aligned interval. -/
theorem aligned_walk (areaEnd : Nat) :
    Walk (fun range => range.size ∣ range.base) areaEnd
      (fun steps areaStart => 2 ^ (pagePower + steps) ∣ areaStart ∧ areaStart < 2 ^ 32 ∧
        pagePower + steps ≤ maxPower + 1)
      (fun steps areaStart => Set.Ico areaStart (areaStart + 2 ^ (pagePower + steps))) where
  aligned ahead := Nat.mod_eq_zero_of_dvd (Nat.dvd_trans (Nat.pow_dvd_pow 2 (Nat.le_add_right _ _)) ahead.1)
  bounded ahead := Nat.le_of_succ_le_succ ahead.2.2
  found {steps areaStart} ahead found := by
    obtain ⟨aligned, below, few⟩ := ahead
    have room := room_above (Nat.le_trans few (by decide)) aligned below
    have positive := Nat.two_pow_pos (pagePower + steps)
    rw [← Nat.add_assoc, PageRange.double, ← Nat.add_assoc] at room
    have lower : 2 ^ (pagePower + steps) ∣ areaStart :=
      Nat.dvd_trans (Nat.pow_dvd_pow 2 (Nat.le_succ _)) aligned
    have next := Nat.dvd_add lower (Nat.dvd_refl _)
    rw [wrap_of_lt (by omega : areaStart + 2 ^ (pagePower + steps) < 2 ^ 32)]
    refine ⟨⟨next, by omega, by omega⟩, Set.Ico_disjoint_Ico_same, ?_, ?_⟩
    · rw [← Nat.add_assoc pagePower, PageRange.double, ← Nat.add_assoc]
      exact Set.union_subset (Set.Ico_subset_Ico_right (Nat.le_add_right _ _))
        (Set.Ico_subset_Ico_left (Nat.le_add_right _ _))
    · intro nonnull
      refine ⟨⟨Nat.pos_of_ne_zero nonnull, ?_,
        Nat.le_add_right_of_le (by decide), Nat.le_of_succ_le_succ few,
        candidate_aligned lower⟩, lower⟩
      exact Nat.le_trans (Nat.le_add_right _ _) room
  skipped {steps areaStart} ahead _ := by
    obtain ⟨aligned, below, few⟩ := ahead
    have smaller : 2 ^ (pagePower + steps) ∣ 2 ^ (pagePower + (steps + 1)) :=
      Nat.pow_dvd_pow 2 (Nat.le_succ _)
    refine ⟨⟨Nat.dvd_trans smaller aligned, below, by omega⟩, Set.Ico_subset_Ico_right ?_⟩
    exact Nat.add_le_add_left (Nat.pow_le_pow_right (by decide) (Nat.le_succ _)) _

/-- The loop passes powers that do not fit until it meets the first one that does. -/
theorem discoverFrom_first (aligned : areaStart % 2 ^ pagePower = 0)
    (few : pagePower + steps ≤ maxPower + 1) :
    ((∀ power < steps, ¬ fitsBelow areaEnd power areaStart) ∧
      discoverFrom areaEnd steps allocator areaStart = .ok allocator) ∨
    ∃ first < steps, fitsBelow areaEnd first areaStart ∧
      (∀ power, first < power → power < steps → ¬ fitsBelow areaEnd power areaStart) ∧
      discoverFrom areaEnd steps allocator areaStart =
        discoverFrom areaEnd first (allocator.pushed (candidate first areaStart))
          (wrap (areaStart + 2 ^ (pagePower + first))) := by
  induction steps with
  | zero => exact .inl ⟨by simp, rfl⟩
  | succ steps ih =>
    by_cases found : fitsBelow areaEnd steps areaStart
    · refine .inr ⟨steps, Nat.lt_succ_self _, found, ?_,
        discoverFrom_found found aligned (by omega)⟩
      intro power above below
      omega
    · rw [discoverFrom_skipped found]
      rcases ih (by omega) with ⟨none, done⟩ | ⟨first, below, fits, larger, done⟩
      · refine .inl ⟨?_, done⟩
        intro power below
        rcases Nat.lt_succ_iff_lt_or_eq.mp below with smaller | rfl
        · exact none power smaller
        · exact found
      · refine .inr ⟨first, Nat.lt_succ_of_lt below, fits, ?_, done⟩
        intro power above below
        rcases Nat.lt_succ_iff_lt_or_eq.mp below with smaller | rfl
        · exact larger power above smaller
        · exact found

/-- The loop started with an aligned first block puts only naturally aligned blocks on the lists. -/
theorem construct_aligned {first : Nat} (memory : Memory) (small : areaStart < 2 ^ 32)
    (few : pagePower + first ≤ maxPower) (aligned : 2 ^ (pagePower + first) ∣ areaStart) :
    ∃ after found space,
      discoverFrom areaEnd first
        (({ memory, blocks := fun _ => 0 } : PageAllocator).pushed (candidate first areaStart))
        (wrap (areaStart + 2 ^ (pagePower + first))) = .ok after ∧
      Holds (fun range => range.size ∣ range.base) space after found [] := by
  have machine : 2 ^ (pagePower + first) ∣ 2 ^ 32 :=
    Nat.pow_dvd_pow 2 (Nat.le_trans few (by decide))
  have next : 2 ^ (pagePower + first) ∣ wrap (areaStart + 2 ^ (pagePower + first)) :=
    (Nat.dvd_mod_iff machine).mpr (Nat.dvd_add aligned (Nat.dvd_refl _))
  have room := room_above (Nat.le_trans few (by decide)) aligned small
  have below : wrap (areaStart + 2 ^ (pagePower + first)) < 2 ^ 32 := Nat.mod_lt _ (by decide)
  have ahead : 2 ^ (pagePower + first) ∣ wrap (areaStart + 2 ^ (pagePower + first)) ∧
      wrap (areaStart + 2 ^ (pagePower + first)) < 2 ^ 32 ∧ pagePower + first ≤ maxPower + 1 :=
    ⟨next, below, Nat.le_succ_of_le few⟩
  have empty : Holds (fun range => range.size ∣ range.base) ∅ { memory, blocks := fun _ => 0 } []
    [] := .empty memory
  by_cases null : areaStart = 0
  · have word : linkPower ≤ (candidate first areaStart).power := Nat.le_add_right_of_le (by decide)
    have lost := empty.push_null null (Set.empty_disjoint _) word (by simp)
    obtain ⟨after, found, final, done, holds, _⟩ :=
      (aligned_walk areaEnd).discoverFrom ahead lost (Set.empty_disjoint _) (by simp)
    exact ⟨after, found, final, done, holds⟩
  · have placed : (candidate first areaStart).Placed :=
      ⟨Nat.pos_of_ne_zero null, room,
        Nat.le_add_right_of_le (by decide), few, candidate_aligned aligned⟩
    have joined := empty.push_new placed aligned (Set.disjoint_empty _)
    have apart : Disjoint ((candidate first areaStart).cells ∪ ∅)
        (Set.Ico (wrap (areaStart + 2 ^ (pagePower + first)))
          (wrap (areaStart + 2 ^ (pagePower + first)) + 2 ^ (pagePower + first))) := by
      rw [Set.union_empty]
      rcases Nat.lt_or_eq_of_le room with inside | whole
      · rw [wrap_of_lt inside]
        exact Set.Ico_disjoint_Ico_same
      · have half : 2 ^ (pagePower + first) ≤ 2 ^ 19 := Nat.pow_le_pow_right (by decide) few
        have separate : Disjoint (candidate first areaStart).cells (candidate first 0).cells := by
          refine PageRange.apart_iff.mpr (.inr ?_)
          simp only [PageRange.stop, PageRange.size, candidate]
          omega
        rw [whole]
        exact separate
    obtain ⟨after, found, final, done, holds, _⟩ :=
      (aligned_walk areaEnd).discoverFrom ahead joined apart (by
      intro block member
      obtain rfl := List.mem_singleton.mp member
      exact Nat.le_refl _)
    exact ⟨after, found, final, done, holds⟩

end PageAllocator

/-- Runs from naturally aligned blocks only return naturally aligned ranges. -/
theorem natural_of_holds {allocator : PageAllocator} {found : List PageRange} {space : Set Nat}
    {state : PageState}
    (holds : Holds (fun range => range.size ∣ range.base) space allocator found [])
    (reachable : PageState.machine.Reachable ⟨allocator, []⟩ state) :
    ∀ range ∈ state.live, range.Natural := by
  have initial : (⟨allocator, []⟩ : PageState).Holds (fun range => range.size ∣ range.base) space :=
    ⟨found, holds⟩
  obtain ⟨free, current⟩ := initial.reachable PageRange.halving_dvd reachable
  intro range member
  obtain ⟨placed, aligned⟩ := current.placed range (by simp [member])
  exact PageRange.natural_of_dvd placed.word aligned

/-- Right after construction the first block is what an allocation of its power returns. -/
theorem first_allocated {allocator after : PageAllocator} {areaStart areaEnd first : Nat}
    (few : pagePower + first ≤ maxPower) (aligned : areaStart % 2 ^ pagePower = 0)
    (nonnull : areaStart ≠ 0)
    (done : discoverFrom areaEnd first (allocator.pushed (candidate first areaStart))
      (wrap (areaStart + 2 ^ (pagePower + first))) = .ok after) :
    ∃ history state, PageState.machine.Run ⟨after, []⟩ history state ∧
      state.live = [⟨pagePower + first, areaStart⟩] := by
  obtain ⟨final, same, larger⟩ := discoverFrom_ok (pageAligned_wrap aligned) (Nat.le_succ_of_le few)
  rw [done] at same
  cases same
  have head : after.blocks (pagePower + first) = areaStart :=
    (larger _ (Nat.le_refl _)).trans (if_pos rfl)
  have taken : after.allocateLocked (pagePower + first) = .ok (some ⟨pagePower + first, areaStart⟩,
      after.setBlock (pagePower + first) (after.memory.load areaStart)) := by
    rw [allocateLocked, Nat.succ_sub few, PageAllocator.allocateUp, head, if_pos nonnull]
  have executed : PageState.machine.execute ⟨after, []⟩ (.allocate (pagePower + first)) =
      .ok ⟨after.setBlock (pagePower + first) (after.memory.load areaStart),
        [⟨pagePower + first, areaStart⟩]⟩ := by
    simp only [PageState.machine, PageState.execute, taken]
    rfl
  have allowed : PageState.machine.permitted ⟨after, []⟩ (.allocate (pagePower + first)) := trivial
  exact ⟨_, _, .step .start allowed executed, rfl⟩

/-- The power of the first block that `discover_blocks` finds: the largest one that fits. -/
def FirstBlock (areaStart areaEnd power : Nat) : Prop :=
  pagePower ≤ power ∧ power ≤ maxPower ∧
    wrap (roundToAlignment areaStart pageSize + 2 ^ power) ≤ areaEnd ∧
    ∀ larger, power < larger → larger ≤ maxPower →
      areaEnd < wrap (roundToAlignment areaStart pageSize + 2 ^ larger)

/-- All ranges of all runs are naturally aligned exactly if the first block is. -/
theorem natural_alignment_iff (memory : Memory) (areaStart areaEnd : Nat) :
    (∀ allocator history state, PageAllocator.construct memory areaStart areaEnd = .ok allocator →
      PageState.machine.Run ⟨allocator, []⟩ history state → ∀ range ∈ state.live, range.Natural) ↔
    ∀ power, FirstBlock areaStart areaEnd power →
    2 ^ power ∣ roundToAlignment areaStart pageSize := by
  have start : PageAllocator.construct memory areaStart areaEnd =
      discoverFrom areaEnd (maxPower + 1 - pagePower) { memory, blocks := fun _ => 0 }
        (roundToAlignment areaStart pageSize) := rfl
  have pages : roundToAlignment areaStart pageSize % 2 ^ pagePower = 0 := by
    rw [roundToAlignment_page]
    exact Nat.mul_mod_left _ _
  have small : roundToAlignment areaStart pageSize < 2 ^ 32 := by
    rw [roundToAlignment_page]
    exact Nat.lt_of_le_of_lt (Nat.div_mul_le_self _ _) (Nat.mod_lt _ (by decide))
  simp only [FirstBlock]
  generalize roundToAlignment areaStart pageSize = base at *
  have search := @discoverFrom_first { memory, blocks := fun _ => 0 } base areaEnd _ pages
    (Nat.le_of_eq (Nat.add_sub_cancel' (by decide)))
  have span : maxPower + 1 - pagePower = 12 := rfl
  rcases search with ⟨none, done⟩ | ⟨first, below, fits, larger, done⟩
  · constructor
    · rintro _ power ⟨large, few, found, _⟩
      obtain ⟨steps, rfl⟩ := Nat.exists_eq_add_of_le large
      exact absurd found (none steps (by omega))
    · intro _ allocator history state built run
      rw [start, done] at built
      cases built
      exact natural_of_holds (.empty memory) ⟨history, run⟩
  · have few : pagePower + first ≤ maxPower := by
      unfold pagePower maxPower
      omega
    have chosen : ∀ power, pagePower ≤ power → power ≤ maxPower →
      wrap (base + 2 ^ power) ≤ areaEnd →
        (∀ larger, power < larger → larger ≤ maxPower → areaEnd < wrap (base + 2 ^ larger)) →
        power = pagePower + first := by
      intro power large small found most
      obtain ⟨steps, rfl⟩ := Nat.exists_eq_add_of_le large
      rcases Nat.lt_trichotomy steps first with before | rfl | behind
      · exact absurd fits (Nat.not_le.mpr (most _ (by omega) few))
      · rfl
      · exact absurd found (larger steps behind (by unfold pagePower maxPower at *; omega))
    constructor
    · intro natural power ⟨large, small, found, most⟩
      obtain rfl := chosen power large small found most
      by_contra misaligned
      have nonnull : base ≠ 0 := fun null => misaligned (null ▸ Nat.dvd_zero _)
      obtain ⟨after, built, _⟩ := discoverFrom_ok (pageAligned_wrap pages) (Nat.le_succ_of_le few)
      obtain ⟨history, state, run, live⟩ := first_allocated few pages nonnull built
      have range := natural after history state (start.trans (done.trans built)) run
        ⟨pagePower + first, base⟩
        (by rw [live]; exact List.mem_singleton_self _)
      exact misaligned (Nat.dvd_of_mod_eq_zero range.aligned)
    · intro aligned allocator history state built run
      have whole : 2 ^ (pagePower + first) ∣ base := by
        refine aligned _ ⟨Nat.le_add_right _ _, few, fits, ?_⟩
        intro power above small
        obtain ⟨steps, rfl⟩ :=
          Nat.exists_eq_add_of_le (Nat.le_of_lt (Nat.lt_of_le_of_lt (Nat.le_add_right _ _) above))
        exact Nat.not_le.mp (larger steps (by omega) (by unfold pagePower maxPower at *; omega))
      obtain ⟨after, found, space, found_ok, holds⟩ := construct_aligned memory small few whole
      rw [start, done, found_ok] at built
      cases built
      exact natural_of_holds holds ⟨history, run⟩

/-- A stack whose MPU region leaves out its upper end. -/
theorem misaligned_stack :
    ∃ allocator history state, PageAllocator.construct (fun _ => 0) 0x20008f00 0x20040000 =
      .ok allocator ∧
      PageState.machine.Run ⟨allocator, []⟩ history state ∧ ∃ range ∈ state.live, range.power = 11 ∧
        range.base % 2 ^ range.power ≠ 0 ∧
        ∃ region, MPU.regionOf range = some region ∧ range.stop - 1 ∉ region.cells := by
  have played : (PageAllocator.construct (fun _ => 0) 0x20008f00 0x20040000).toOption.bind
    (fun allocator =>
      (PageState.machine.after ⟨allocator, []⟩ [.allocate 11]).map PageState.live) =
        some [⟨11, 0x2003ef00⟩] := by
    decide +kernel
  cases built : PageAllocator.construct (fun _ => 0) 0x20008f00 0x20040000 with
  | error fault => rw [built] at played; cases played
  | ok allocator =>
    rw [built] at played
    obtain ⟨state, executed, live⟩ := Option.map_eq_some_iff.mp played
    obtain ⟨history, run⟩ := Machine.reachable_after executed
    refine ⟨allocator, history, state, rfl, run, ⟨11, 0x2003ef00⟩,
      by simp [live], rfl, by decide, ?_⟩
    have region : MPU.regionOf ⟨11, 0x2003ef00⟩ = some ⟨0x2003ef00 >>> 5, 10⟩ := by decide +kernel
    refine ⟨_, region, fun inside => ?_⟩
    have below := inside.2
    revert below
    decide

end PicoOs.Kernel
