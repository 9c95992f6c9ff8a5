import PicoOs.Proofs.PageDiscovery

/-! Whole runs of the page allocator over an area whose addresses do not wrap. -/

namespace PicoOs.Kernel
open Library PageAllocator

/-- No sum that `discover_blocks` computes wraps around. -/
def AddressesFit (areaEnd : Nat) : Nat → Nat → Prop
  | 0, _ => True
  | steps + 1, areaStart =>
    let blockEnd := areaStart + 2 ^ (pagePower + steps)
    blockEnd < 2 ^ 32 ∧ AddressesFit areaEnd steps
      (if blockEnd ≤ areaEnd then blockEnd else areaStart)

/-- An area that lies in the address space, not at the null address, with all the
addresses that the constructor computes from it. -/
structure PageArea (areaStart areaEnd : Nat) : Prop where
  nonnull : 0 < areaStart
  rounds : areaStart + (pageSize - 1) < 2 ^ 32
  fit : AddressesFit areaEnd (maxPower + 1 - pagePower) (pageUp areaStart)

namespace PageArea
variable {areaStart areaEnd steps : Nat}

private theorem start_eq (area : PageArea areaStart areaEnd) :
    roundToAlignment areaStart pageSize = pageUp areaStart :=
  roundToAlignment_pageUp (Nat.succ_le_of_lt area.rounds)

/-- A margin of the largest block above the area is enough. -/
theorem of_margin (nonnull : 0 < areaStart) (below : pageUp areaStart ≤ areaEnd)
    (margin : areaEnd + 2 ^ maxPower < 2 ^ 32) : PageArea areaStart areaEnd where
  nonnull := nonnull
  rounds := by
    unfold pageUp pageSize at below
    unfold maxPower at margin
    unfold pageSize
    omega
  fit := by
    have fits : ∀ steps areaStart, pagePower + steps ≤ maxPower + 1 → areaStart ≤ areaEnd →
        AddressesFit areaEnd steps areaStart := by
      intro steps
      induction steps with
      | zero => exact fun _ _ _ => trivial
      | succ steps ih =>
        intro areaStart few below
        have power : 2 ^ (pagePower + steps) ≤ 2 ^ maxPower :=
          Nat.pow_le_pow_right (by decide) (by omega)
        refine ⟨by omega, ih _ (by omega) ?_⟩
        split
        · assumption
        · exact below
    exact fits _ _ (by decide) below

/-- Without wrapping, what is found lies between the rounded start and the end. -/
theorem walk (areaEnd : Nat) :
    Walk (fun _ => True) areaEnd
      (fun steps areaStart => AddressesFit areaEnd steps areaStart ∧ areaStart % 2 ^ pagePower = 0 ∧
        0 < areaStart ∧
        pagePower + steps ≤ maxPower + 1)
      (fun _ areaStart => Set.Ico areaStart areaEnd) where
  aligned ahead := ahead.2.1
  bounded ahead := Nat.le_of_succ_le_succ ahead.2.2.2
  found {steps areaStart} ahead found := by
    obtain ⟨⟨small, rest⟩, aligned, positive, few⟩ := ahead
    have sum : wrap (areaStart + 2 ^ (pagePower + steps)) = areaStart + 2 ^ (pagePower + steps) :=
      wrap_of_lt small
    have below : areaStart + 2 ^ (pagePower + steps) ≤ areaEnd := sum ▸ found
    have next : wrap (areaStart + 2 ^ (pagePower + steps)) % 2 ^ pagePower = 0 :=
      pageAligned_wrap aligned
    rw [if_pos below] at rest
    rw [sum] at next ⊢
    refine ⟨⟨rest, next, Nat.add_pos_left positive _, by omega⟩, ?_, ?_, ?_⟩
    · exact Set.Ico_disjoint_Ico_same
    · exact Set.union_subset (Set.Ico_subset_Ico_right below)
        (Set.Ico_subset_Ico_left (Nat.le_add_right _ _))
    · intro _
      refine ⟨⟨positive, Nat.le_of_lt small, Nat.le_add_right_of_le (by decide), ?_, ?_⟩, trivial⟩
      · exact Nat.le_of_succ_le_succ few
      · simp only [candidate, Nat.min_eq_right (Nat.le_add_right _ _)]
        exact aligned
  skipped {steps areaStart} ahead skipped := by
    obtain ⟨⟨small, rest⟩, aligned, positive, few⟩ := ahead
    have above : ¬ areaStart + 2 ^ (pagePower + steps) ≤ areaEnd := wrap_of_lt small ▸ skipped
    rw [if_neg above] at rest
    exact ⟨⟨rest, aligned, positive, by omega⟩, Set.Subset.refl _⟩

end PageArea

namespace PageAllocator.Holds
variable {good : PageRange → Prop} {space : Set Nat} {allocator : PageAllocator}
  {free live : List PageRange}
  {range : PageRange}

theorem write (holds : Holds good space allocator free live) (member : range ∈ live) {address : Nat}
    {value : UInt8}
    (above : range.base ≤ address) (below : address < range.stop) :
    Holds good space { allocator with memory := allocator.memory.write address value }
      free live where
  lists := by
    refine holds.lists.congr fun block present => ?_
    have apart := (List.pairwise_append.mp holds.packs.disjoint).2.2 block present range member
    have separate := PageRange.apart_iff.mp apart
    have word := PageRange.word_le (holds.placed block (by simp [present])).1
    exact Memory.write_agree _ (by omega)
  packs := holds.packs
  placed := holds.placed

end PageAllocator.Holds

namespace PageState
variable {good : PageRange → Prop} {space : Set Nat} {state next : PageState} {event : PageEvent}

def Holds (good : PageRange → Prop) (space : Set Nat) (state : PageState) : Prop :=
  ∃ free, state.allocator.Holds good space free state.live

/-- One step, with what it writes: nothing in the ranges that are live afterwards. -/
theorem Holds.execute (holds : state.Holds good space) (halving : PageRange.Halving good)
    (allowed : state.permitted event) (executed : state.execute event = .ok next) :
    next.Holds good space ∧ ((∀ address value, event ≠ .write address value) →
      ∀ range ∈ next.live, Memory.Agree state.allocator.memory next.allocator.memory range.base
        range.stop) := by
  obtain ⟨free, holds⟩ := holds
  cases event with
  | allocate power =>
    cases done : state.allocator.allocateLocked power with
    | error fault => rw [PageState.execute, done] at executed; cases executed
    | ok result =>
      rw [PageState.execute, done] at executed
      cases executed
      obtain ⟨range, rest, same, _, kept, unwritten⟩ := holds.allocateUp halving done
      simp only [same]
      exact ⟨⟨rest, kept⟩, fun _ => unwritten⟩
  | deallocate range =>
    have front := holds.perm (List.perm_cons_erase allowed)
    obtain ⟨pushed, kept, unwritten⟩ := front.push
    rw [PageState.execute, pushed] at executed
    cases executed
    exact ⟨⟨_, kept⟩, fun _ => unwritten⟩
  | write address value =>
    cases executed
    obtain ⟨range, member, above, below⟩ := allowed
    exact ⟨⟨free, holds.write member above below⟩, fun other => absurd rfl (other address value)⟩

theorem Holds.reachable {start : PageState} (initial : start.Holds good space)
    (halving : PageRange.Halving good)
    (reachable : machine.Reachable start state) : state.Holds good space :=
  reachable.invariant _ initial fun earlier allowed executed =>
    (earlier.execute halving allowed executed).1

structure Sound (areaStart areaEnd : Nat) (found : List PageRange) (state : PageState)
    (free : List PageRange) : Prop where
  lists : state.allocator.Lists free
  packs : Packs PageRange.cells (free ++ state.live) (covered PageRange.cells found)
  inside : ∀ range ∈ free ++ state.live, areaStart ≤ range.base ∧ range.stop ≤ areaEnd
  allocates : ∀ power result allocator, pagePower ≤ power →
    state.allocator.allocateLocked power = .ok (result, allocator) →
      ∃ range, result = some range ∧ range.base % pageSize = 0 ∧ range.size = 2 ^ power
  links : ∀ block ∈ free, ∀ range ∈ state.live, Disjoint
    (Set.Ico block.base (block.base + 4)) range.cells
  writes : ∀ event next, (∀ address value, event ≠ .write address value) → state.permitted event →
    state.execute event = .ok next →
      ∀ range ∈ next.live, Memory.Agree state.allocator.memory next.allocator.memory
        range.base range.stop

theorem halving_true : PageRange.Halving (fun _ => True) := fun _ _ _ => ⟨trivial, trivial⟩

end PageState

/-- The constructor finds blocks inside the area, none of them live. -/
theorem PageArea.constructed {areaStart areaEnd : Nat} (area : PageArea areaStart areaEnd)
    (memory : Memory) :
    ∃ allocator found space, PageAllocator.construct memory areaStart areaEnd = .ok allocator ∧
      allocator.Holds (fun _ => True) space found [] ∧
      space ⊆ Set.Ico (pageUp areaStart) areaEnd := by
  have pages : pageUp areaStart % 2 ^ pagePower = 0 := Nat.mul_mod_left _ _
  have positive : 0 < pageUp areaStart := Nat.lt_of_lt_of_le area.nonnull (pageUp_ge areaStart)
  obtain ⟨allocator, found, space, built, holds, within⟩ := (PageArea.walk areaEnd).discoverFrom
    ⟨area.fit, pages, positive, Nat.le_refl _⟩ (Holds.empty memory) (Set.empty_disjoint _) (by simp)
  rw [Set.empty_union] at within
  refine ⟨allocator, found, space, ?_, holds, within⟩
  rw [PageAllocator.construct, PageAllocator.discoverBlocks, area.start_eq]
  exact built

/-- Every run of the page allocator conserves the blocks found at the start. -/
theorem page_runs {memory : Memory} {areaStart areaEnd : Nat} (area : PageArea areaStart areaEnd) :
    ∃ allocator found, PageAllocator.construct memory areaStart areaEnd = .ok allocator ∧
    allocator.Lists found ∧
      ∀ history state, PageState.machine.Run ⟨allocator, []⟩ history state →
        ∃ free, state.Sound areaStart areaEnd found free := by
  obtain ⟨allocator, found, space, built, holds, within⟩ := area.constructed memory
  have covers : covered PageRange.cells found = space := by simpa using holds.packs.covers
  refine ⟨allocator, found, built, holds.lists, ?_⟩
  intro history state run
  have initial : (⟨allocator, []⟩ : PageState).Holds (fun _ => True) space := ⟨found, holds⟩
  have kept := initial.reachable PageState.halving_true ⟨history, run⟩
  obtain ⟨free, current⟩ := kept
  refine ⟨free, current.lists, covers ▸ current.packs, ?_, ?_, ?_, ?_⟩
  · intro range member
    have lower : range.base ∈ Set.Ico (pageUp areaStart) areaEnd :=
      within (current.packs.subset member ⟨Nat.le_refl _,
        Nat.lt_add_of_pos_right (Nat.two_pow_pos _)⟩)
    have size := Nat.two_pow_pos range.power
    have upper : range.stop - 1 ∈ Set.Ico (pageUp areaStart) areaEnd := by
      refine within (current.packs.subset member ⟨?_, ?_⟩) <;>
        simp only [PageRange.stop, PageRange.size] <;> omega
    exact ⟨Nat.le_trans (pageUp_ge areaStart) lower.1, by have := upper.2; omega⟩
  · intro power result after large done
    obtain ⟨range, rest, same, size, taken, _⟩ := current.allocateUp PageState.halving_true done
    obtain ⟨placed, _⟩ := taken.placed range (by simp)
    exact ⟨range, same, placed.page (size.symm ▸ large), by rw [PageRange.size, size]⟩
  · intro block free range live
    have apart := (List.pairwise_append.mp current.packs.disjoint).2.2 block free range live
    exact apart.mono_left (Set.Ico_subset_Ico_right (PageRange.word_le (current.placed block (by simp [free])).1))
  · intro event next call allowed executed
    have holds : state.Holds (fun _ => True) space := ⟨_, current⟩
    exact (holds.execute PageState.halving_true allowed executed).2 call

theorem page_runs_small :
    ∃ allocator found state free,
      PageAllocator.construct (fun _ => 0) 0x20000101 0x20003000 = .ok allocator ∧
      PageState.machine.after ⟨allocator, []⟩ [.allocate 10, .allocate 9,
        .deallocate ⟨10, 0x20002a00⟩] = some state ∧
      state.live = [⟨9, 0x20002e00⟩] ∧ state.Sound 0x20000101 0x20003000 found free := by
  have area : PageArea 0x20000101 0x20003000 := .of_margin (by decide) (by decide) (by decide)
  obtain ⟨allocator, found, built, _, runs⟩ := @page_runs (fun _ => 0) _ _ area
  have played : (PageAllocator.construct (fun _ => 0) 0x20000101 0x20003000).toOption.bind
    (fun allocator =>
      (PageState.machine.after ⟨allocator, []⟩ [.allocate 10, .allocate 9,
        .deallocate ⟨10, 0x20002a00⟩]).map
        PageState.live) = some [⟨9, 0x20002e00⟩] := by
    decide +kernel
  rw [built] at played
  obtain ⟨state, executed, live⟩ := Option.map_eq_some_iff.mp played
  obtain ⟨history, run⟩ := Machine.reachable_after executed
  obtain ⟨free, sound⟩ := runs history state run
  exact ⟨allocator, found, state, free, built, executed, live, sound⟩

end PicoOs.Kernel
