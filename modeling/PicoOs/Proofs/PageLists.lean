import PicoOs.Kernel.PageAllocator
import PicoOs.Library.LinkedList

/-! The free lists of the page allocator as one list of blocks. Blocks and live
ranges pack a space that no call changes; a call only moves blocks between the two
lists and halves them. -/

namespace PicoOs.Kernel
open Library

namespace PageRange

structure Placed (range : PageRange) : Prop where
  nonnull : 0 < range.base
  fits : range.stop ≤ 2 ^ 32
  word : linkPower ≤ range.power
  bounded : range.power ≤ maxPower
  aligned : range.base % 2 ^ min range.power pagePower = 0

def Halving (good : PageRange → Prop) : Prop :=
  ∀ power base, good ⟨power + 1, base⟩ → good ⟨power, base⟩ ∧ good ⟨power, base + 2 ^ power⟩

theorem mem_cells {range : PageRange} {address : Nat} :
    address ∈ range.cells ↔ range.base ≤ address ∧ address < range.stop := Iff.rfl

theorem apart_iff {range other : PageRange} :
    Disjoint range.cells other.cells ↔ range.stop ≤ other.base ∨ other.stop ≤ range.base := by
  have positive : ∀ range : PageRange, range.base < range.stop := by
    intro range
    exact Nat.lt_add_of_pos_right (Nat.two_pow_pos _)
  rw [Set.disjoint_left]
  constructor
  · intro separate
    by_contra overlap
    have first := positive range
    have second := positive other
    exact separate (mem_cells.mpr ⟨Nat.le_max_left range.base other.base, by omega⟩)
      (mem_cells.mpr ⟨Nat.le_max_right range.base other.base, by omega⟩)
  · intro separate address inside outside
    rw [mem_cells] at inside outside
    omega

theorem word_le {range : PageRange} (placed : range.Placed) : range.base + 4 ≤ range.stop := by
  have power : 2 ^ linkPower ≤ 2 ^ range.power := Nat.pow_le_pow_right (by decide) placed.word
  unfold linkPower at power
  unfold stop size
  omega

theorem Placed.words {range : PageRange} (placed : range.Placed) : range.base % 4 = 0 := by
  have divides : 2 ^ linkPower ∣ 2 ^ min range.power pagePower :=
    Nat.pow_dvd_pow 2 (Nat.le_min.mpr ⟨placed.word, by decide⟩)
  exact Nat.mod_eq_zero_of_dvd (Nat.dvd_trans divides (Nat.dvd_of_mod_eq_zero placed.aligned))

theorem Placed.page {range : PageRange} (placed : range.Placed) (large : pagePower ≤ range.power) :
    range.base % pageSize = 0 := by
  have aligned := placed.aligned
  rwa [Nat.min_eq_right large] at aligned

theorem double (power : Nat) : 2 ^ (power + 1) = 2 ^ power + 2 ^ power := by
  rw [Nat.pow_succ, Nat.mul_two]

private theorem Placed.halves {power base : Nat} (placed : Placed ⟨power + 1, base⟩)
    (large : linkPower ≤ power) :
    Placed ⟨power, base⟩ ∧ Placed ⟨power, base + 2 ^ power⟩ := by
  have fits : base + 2 ^ (power + 1) ≤ 2 ^ 32 := placed.fits
  have nonnull : 0 < base := placed.nonnull
  have bounded : power + 1 ≤ maxPower := placed.bounded
  have whole : 2 ^ min (power + 1) pagePower ∣ base := Nat.dvd_of_mod_eq_zero placed.aligned
  have lower : 2 ^ min power pagePower ∣ base := Nat.dvd_trans (Nat.pow_dvd_pow 2 (by omega)) whole
  have upper : 2 ^ min power pagePower ∣ base + 2 ^ power :=
    Nat.dvd_add lower (Nat.pow_dvd_pow 2 (Nat.min_le_left _ _))
  rw [double, ← Nat.add_assoc] at fits
  have half : base + 2 ^ power ≤ 2 ^ 32 := Nat.le_trans (Nat.le_add_right _ _) fits
  constructor
  · exact ⟨nonnull, half, large, Nat.le_of_succ_le bounded, Nat.mod_eq_zero_of_dvd lower⟩
  · exact ⟨Nat.lt_add_right _ nonnull, fits, large, Nat.le_of_succ_le bounded,
      Nat.mod_eq_zero_of_dvd upper⟩

private theorem halves_pack (power base : Nat) :
    Packs cells [⟨power, base⟩, ⟨power, base + 2 ^ power⟩] (cells ⟨power + 1, base⟩) where
  disjoint := by
    refine .cons ?_ (List.pairwise_singleton _ _)
    intro other member
    obtain rfl := List.mem_singleton.mp member
    exact apart_iff.mpr (.inl (Nat.le_refl _))
  covers := by
    have joined : Set.Ico base (base + 2 ^ power) ∪ Set.Ico (base + 2 ^ power)
      (base + 2 ^ power + 2 ^ power) =
        Set.Ico base (base + 2 ^ power + 2 ^ power) :=
      Set.Ico_union_Ico_eq_Ico (Nat.le_add_right _ _) (Nat.le_add_right _ _)
    rw [← List.singleton_append, covered_append, covered_singleton, covered_singleton]
    simp only [cells, stop, size, double, ← Nat.add_assoc]
    exact joined

end PageRange

def bases (power : Nat) (free : List PageRange) : List Nat :=
  (free.filter (fun block => block.power = power)).map PageRange.base

theorem mem_bases {power base : Nat} {free : List PageRange} :
    base ∈ bases power free ↔ ⟨power, base⟩ ∈ free := by
  constructor
  · intro member
    obtain ⟨block, inside, rfl⟩ := List.mem_map.mp member
    obtain ⟨present, same⟩ := List.mem_filter.mp inside
    obtain rfl := of_decide_eq_true same
    exact present
  · intro member
    exact List.mem_map.mpr ⟨⟨power, base⟩, List.mem_filter.mpr ⟨member, decide_eq_true rfl⟩, rfl⟩

private theorem bases_cons_same (block : PageRange) (free : List PageRange) :
    bases block.power (block :: free) = block.base :: bases block.power free := by simp [bases]

private theorem bases_cons_other {block : PageRange} {power : Nat} (other : power ≠ block.power)
    (free : List PageRange) :
    bases power (block :: free) = bases power free := by simp [bases, other.symm]

namespace PageAllocator

/-- Walking each list in memory visits the free blocks of its power. -/
def Lists (allocator : PageAllocator) (free : List PageRange) : Prop :=
  ∀ power, Segment allocator.memory.load (allocator.blocks power) (bases power free) 0

/-- The blocks on the lists and the live ranges pack the space. -/
structure Holds (good : PageRange → Prop) (space : Set Nat) (allocator : PageAllocator)
    (free live : List PageRange) : Prop where
  lists : allocator.Lists free
  packs : Packs PageRange.cells (free ++ live) space
  placed : ∀ range ∈ free ++ live, range.Placed ∧ good range

variable {good : PageRange → Prop} {space : Set Nat} {allocator after : PageAllocator}
  {free live : List PageRange}
  {range : PageRange} {power base : Nat}

def pushed (allocator : PageAllocator) (range : PageRange) : PageAllocator :=
  ({ allocator with memory := allocator.memory.store range.base (allocator.blocks range.power) }).setBlock
    range.power range.base

theorem deallocateLocked_eq (bounded : range.power ≤ maxPower) (words : range.base % 4 = 0) :
    allocator.deallocateLocked range = .ok (allocator.pushed range) := by
  rw [deallocateLocked, if_pos bounded, if_pos words, pushed]

/-- Only the first word of the pushed block changes. -/
theorem pushed_agree {start stop : Nat} (apart : stop ≤ range.base ∨ range.base + 4 ≤ start) :
    Memory.Agree allocator.memory (allocator.pushed range).memory start stop :=
  Memory.store_agree _ apart

theorem pushed_agree_of_disjoint {other : PageRange} (placed : range.Placed)
    (apart : Disjoint range.cells other.cells) :
    Memory.Agree allocator.memory (allocator.pushed range).memory other.base other.stop := by
  have word := PageRange.word_le placed
  have separate := PageRange.apart_iff.mp apart
  exact pushed_agree (by omega)

namespace Lists

private theorem head_lt (lists : allocator.Lists free) (placed : ∀ block ∈ free, block.Placed) :
    allocator.blocks power < 2 ^ 32 := by
  have linked := lists power
  cases shape : bases power free with
  | nil =>
    rw [shape] at linked
    rw [show allocator.blocks power = 0 from linked]
    decide
  | cons base rest =>
    rw [shape] at linked
    obtain ⟨same, _⟩ := linked
    have member : ⟨power, base⟩ ∈ free := mem_bases.mp (shape ▸ List.mem_cons_self)
    have fits := (placed _ member).fits
    have word := PageRange.word_le (placed _ member)
    simp only at word
    omega

/-- The links of a memory that agrees on the first words of all blocks. -/
theorem congr {memory : Memory} (lists : allocator.Lists free)
    (same : ∀ block ∈ free, Memory.Agree allocator.memory memory block.base (block.base + 4)) :
    Lists { allocator with memory } free := by
  intro power
  refine (lists power).congr fun base member => ?_
  exact (same _ (mem_bases.mp member)).load (Nat.le_refl _) (Nat.le_refl _)

theorem push (lists : allocator.Lists free) (placed : range.Placed)
    (others : ∀ block ∈ free, block.Placed)
    (apart : ∀ block ∈ free, Disjoint range.cells block.cells) :
    (allocator.pushed range).Lists (range :: free) := by
  have kept : ∀ block ∈ free, Memory.Agree allocator.memory (allocator.pushed range).memory
    block.base (block.base + 4) :=
    fun block member => (pushed_agree_of_disjoint placed (apart block member)).mono (Nat.le_refl _)
      (PageRange.word_le (others block member))
  intro power
  by_cases same : power = range.power
  · subst same
    rw [bases_cons_same]
    have link : (allocator.pushed range).memory.load range.base = allocator.blocks range.power := by
      rw [pushed, setBlock, Memory.load_store_same, Nat.mod_eq_of_lt (lists.head_lt others)]
    refine ⟨by simp [pushed, setBlock], ?_⟩
    rw [link]
    exact lists.congr kept range.power
  · rw [bases_cons_other same]
    have head : (allocator.pushed range).blocks power = allocator.blocks power := by
      simp [pushed, setBlock, same]
    rw [head]
    exact lists.congr kept power

private theorem pop (lists : allocator.Lists free) (present : allocator.blocks power ≠ 0) :
    ∃ rest, free.Perm (⟨power, allocator.blocks power⟩ :: rest) ∧
      Lists (allocator.setBlock power (allocator.memory.load (allocator.blocks power))) rest := by
  have linked := lists power
  cases shape : bases power free with
  | nil =>
    rw [shape] at linked
    exact absurd linked present
  | cons base others =>
    rw [shape] at linked
    obtain ⟨same, remaining⟩ := linked
    obtain ⟨block, blocks, filtered, rfl, rfl⟩ := List.map_eq_cons_iff.mp shape
    obtain ⟨before, behind, rfl, skipped, own, rfl⟩ := List.filter_eq_cons_iff.mp filtered
    obtain rfl := of_decide_eq_true own
    have named : (⟨block.power, allocator.blocks block.power⟩ : PageRange) = block := by rw [same]
    refine ⟨before ++ behind, by rw [named]; exact List.perm_middle, ?_⟩
    intro power
    by_cases current : power = block.power
    · subst current
      have head : bases block.power (before ++ behind) =
        (behind.filter (·.power = block.power)).map PageRange.base := by
        rw [bases, List.filter_append, List.filter_eq_nil_iff.mpr skipped, List.nil_append]
      rw [head, same]
      simpa [setBlock] using remaining
    · have unchanged := lists power
      simp only [bases, List.filter_append, List.filter_cons, decide_eq_true_eq, Ne.symm current,
        if_false] at unchanged
      simpa [setBlock, current, bases] using unchanged

end Lists

namespace Holds

theorem perm {other : List PageRange} (holds : Holds good space allocator free live)
    (same : live.Perm other) :
    Holds good space allocator free other where
  lists := holds.lists
  packs := holds.packs.perm (same.append_left free)
  placed range member := holds.placed range ((same.append_left free).mem_iff.mpr member)

private theorem apart (holds : Holds good space allocator free (range :: live)) :
    (∀ block ∈ free, Disjoint range.cells block.cells) ∧
    ∀ other ∈ live, Disjoint range.cells other.cells := by
  have front := holds.packs.perm List.perm_middle
  exact ⟨fun block member => front.apart (List.mem_append_left _ member),
    fun other member => front.apart (List.mem_append_right _ member)⟩

/-- Giving back a range turns it into the first block of its list. -/
theorem push (holds : Holds good space allocator free (range :: live)) :
    allocator.deallocateLocked range = .ok (allocator.pushed range) ∧
      Holds good space (allocator.pushed range) (range :: free) live ∧
      ∀ other ∈ live, Memory.Agree allocator.memory (allocator.pushed range).memory other.base
        other.stop := by
  obtain ⟨placed, _⟩ := holds.placed range (by simp)
  have others : ∀ block ∈ free, block.Placed :=
    fun block member => (holds.placed block (by simp [member])).1
  refine ⟨deallocateLocked_eq placed.bounded placed.words,
    ⟨?_, holds.packs.perm List.perm_middle, ?_⟩, ?_⟩
  · exact holds.lists.push placed others holds.apart.1
  · exact fun other member => holds.placed other (List.perm_middle.mem_iff.mpr member)
  · exact fun other member => pushed_agree_of_disjoint placed (holds.apart.2 other member)

private theorem pop (holds : Holds good space allocator free live)
    (present : allocator.blocks power ≠ 0) :
    ∃ rest, Holds good space (allocator.setBlock power (allocator.memory.load (allocator.blocks power))) rest
      (⟨power, allocator.blocks power⟩ :: live) := by
  obtain ⟨rest, taken, lists⟩ := holds.lists.pop present
  have moved := (taken.append_right live).trans List.perm_middle.symm
  exact ⟨rest, lists, holds.packs.perm moved,
    fun range member => holds.placed range (moved.mem_iff.mpr member)⟩

theorem halve (holds : Holds good space allocator free (⟨power + 1, base⟩ :: live))
    (halving : PageRange.Halving good)
    (large : linkPower ≤ power) :
    Holds good space allocator free (⟨power, base + 2 ^ power⟩ :: ⟨power, base⟩ :: live) := by
  obtain ⟨placed, fine⟩ := holds.placed ⟨power + 1, base⟩ (by simp)
  obtain ⟨lowerPlaced, upperPlaced⟩ := placed.halves large
  obtain ⟨lowerGood, upperGood⟩ := halving power base fine
  have front := (holds.packs.perm List.perm_middle).split (PageRange.halves_pack power base)
  refine ⟨holds.lists, front.perm ?_, ?_⟩
  · have moved : (free ++ ⟨power, base + 2 ^ power⟩ :: ⟨power, base⟩ :: live).Perm
        (⟨power, base + 2 ^ power⟩ :: ⟨power, base⟩ :: (free ++ live)) :=
      List.perm_middle.trans (.cons _ List.perm_middle)
    exact (List.Perm.swap _ _ _).trans moved.symm
  · intro range member
    simp only [List.mem_append, List.mem_cons] at member
    rcases member with present | rfl | rfl | present
    · exact holds.placed range (by simp [present])
    · exact ⟨upperPlaced, upperGood⟩
    · exact ⟨lowerPlaced, lowerGood⟩
    · exact holds.placed range (by simp [present])

/-- A successful `allocate_locked` returns a range of the power asked for, moves it to
the live ranges, and writes into none of them. -/
theorem allocateUp {levels : Nat} {result : Option PageRange}
    (holds : Holds good space allocator free live)
    (halving : PageRange.Halving good)
    (done : allocator.allocateUp levels power = .ok (result, after)) :
    ∃ range rest, result = some range ∧ range.power = power ∧
    Holds good space after rest (range :: live) ∧
      ∀ other ∈ range :: live, Memory.Agree allocator.memory after.memory other.base
        other.stop := by
  induction levels generalizing power result after with
  | zero => cases done
  | succ levels ih =>
    simp only [PageAllocator.allocateUp] at done
    split at done
    next present =>
      cases done
      obtain ⟨rest, popped⟩ := holds.pop present
      exact ⟨_, rest, rfl, rfl, popped, fun _ _ _ _ _ => rfl⟩
    next =>
      split at done
      next below =>
        cases larger : allocator.allocateUp levels (power + 1) with
        | error fault => rw [larger] at done; cases done
        | ok outcome =>
          obtain ⟨block, middle⟩ := outcome
          rw [larger] at done
          obtain ⟨⟨_, base⟩, rest, rfl, rfl, taken, unwritten⟩ := ih larger
          obtain ⟨placed, _⟩ := taken.placed ⟨power + 1, base⟩ (by simp)
          have fits : base + 2 ^ (power + 1) ≤ 2 ^ 32 := placed.fits
          have positive := Nat.two_pow_pos power
          rw [PageRange.double, ← Nat.add_assoc] at fits
          have address : wrap (base + 2 ^ power) = base + 2 ^ power := wrap_of_lt (by omega)
          simp only [bind, Except.bind, address] at done
          by_cases large : linkPower ≤ power
          · have halves := taken.halve halving large
            obtain ⟨pushed, next, kept⟩ := halves.push
            rw [pushed] at done
            cases done
            refine ⟨_, _, rfl, rfl, next, ?_⟩
            intro other member
            refine Memory.Agree.trans ?_ (kept other member)
            rcases List.mem_cons.mp member with rfl | present
            · refine (unwritten ⟨power + 1, base⟩ (by simp)).mono (Nat.le_refl _) ?_
              simp only [PageRange.stop, PageRange.size, PageRange.double]
              omega
            · exact unwritten other (by simp [present])
          · have smallest : linkPower ≤ power + 1 := placed.word
            obtain rfl : power = 1 := by unfold linkPower at large smallest; omega
            have words : base % 4 = 0 := placed.words
            rw [deallocateLocked, if_pos (by simp [maxPower]), if_neg (by simp only; omega)] at done
            cases done
      next => cases done

end Holds
end PageAllocator
end PicoOs.Kernel
