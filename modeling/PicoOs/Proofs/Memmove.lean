import PicoOs.Userland.Abi

/-! Moving bytes word by word. Rewriting a word changes one byte of it, so the loops
copy bytes; in the direction that `__aeabi_memmove` chooses none is read after it was
overwritten. -/

namespace PicoOs.Userland
open Library

section Words
variable {memory : Memory} {address value index mask shift : Nat} {byte : UInt8}

theorem ofNat_and (value : Nat) : UInt8.ofNat (value &&& 0xff) = UInt8.ofNat value := by
  have low : value &&& 0xff = value % 2 ^ 8 := Nat.and_two_pow_sub_one_eq_mod value 8
  rw [low]
  apply UInt8.toNat_inj.mp
  simp

theorem load_byte (memory : Memory) (address : Nat) (small : index < 4) :
    UInt8.ofNat (memory.load address >>> (8 * index)) = memory (address + index) := by
  have b0 := (memory address).toNat_lt
  have b1 := (memory (address + 1)).toNat_lt
  have b2 := (memory (address + 2)).toNat_lt
  have b3 := (memory (address + 3)).toNat_lt
  apply UInt8.toNat_inj.mp
  rw [UInt8.toNat_ofNat', Nat.shiftRight_eq_div_pow]
  unfold Memory.load
  obtain rfl | rfl | rfl | rfl : index = 0 ∨ index = 1 ∨ index = 2 ∨ index = 3 := by omega
  all_goals
    simp only [Nat.mul_zero, Nat.mul_one, Nat.add_zero, Nat.reduceMul]
    omega

/-- Storing a word that differs from what is there in one byte writes that byte. -/
theorem store_eq_write (small : index < 4) (own : UInt8.ofNat (value >>> (8 * index)) = byte)
    (others : ∀ other < 4, other ≠ index → UInt8.ofNat (value >>> (8 * other)) =
      memory (address + other)) :
    memory.store address value = memory.write (address + index) byte := by
  have stored : ∀ other < 4, UInt8.ofNat (value >>> (8 * other)) =
    memory.write (address + index) byte (address + other) := by
    intro other below
    unfold Memory.write
    by_cases same : other = index
    · rw [if_pos (by rw [same]), same, own]
    · rw [if_neg (by omega), others other below same]
  funext other
  unfold Memory.store
  by_cases inside : address ≤ other ∧ other < address + 4
  · obtain ⟨offset, rfl⟩ := Nat.exists_eq_add_of_le inside.1
    have known := stored offset (by omega)
    rw [Nat.shiftRight_eq_div_pow] at known
    obtain rfl | rfl | rfl | rfl : offset = 0 ∨ offset = 1 ∨ offset = 2 ∨ offset = 3 := by omega
    all_goals simpa using known
  · rw [if_neg (by omega), if_neg (by omega), if_neg (by omega), if_neg (by omega), Memory.write, if_neg (by omega)]

private theorem replaced_byte (shift mask : Nat) (value : Nat) (byte : UInt8) (other : Nat)
    (cleared : mask >>> other &&& 0xff = if other = shift then 0 else 0xff)
    (placed : byte.toNat <<< shift >>> other &&& 0xff = if other = shift then byte.toNat else 0) :
    UInt8.ofNat ((value &&& mask ||| byte.toNat <<< shift) >>> other) =
      if other = shift then byte else UInt8.ofNat (value >>> other) := by
  rw [← ofNat_and, Nat.shiftRight_or_distrib, Nat.shiftRight_and_distrib, Nat.and_or_distrib_right,
    Nat.and_assoc, cleared,
    placed]
  split
  · rw [Nat.and_zero, Nat.zero_or]
    exact UInt8.ofNat_toNat
  · rw [Nat.or_zero, ofNat_and]

private theorem placed_byte (byte : UInt8) (index other : Nat) (small : index < 4)
    (below : other < 4) :
    byte.toNat <<< (8 * index) >>> (8 * other) &&& 0xff = if 8 * other = 8 * index then byte.toNat else 0 := by
  have bound := byte.toNat_lt
  have low : ∀ value : Nat, value &&& 0xff = value % 2 ^ 8 :=
    fun value => Nat.and_two_pow_sub_one_eq_mod value 8
  rw [low, Nat.shiftLeft_eq, Nat.shiftRight_eq_div_pow]
  obtain rfl | rfl | rfl | rfl : index = 0 ∨ index = 1 ∨ index = 2 ∨ index = 3 := by omega
  all_goals
    obtain rfl | rfl | rfl | rfl : other = 0 ∨ other = 1 ∨ other = 2 ∨ other = 3 := by omega
    all_goals
      simp only [Nat.reduceMul, Nat.reduceEqDiff, if_true, if_false]
      omega

/-- Clearing a byte of a word in memory and setting it anew writes the byte. -/
theorem store_replaced (memory : Memory) (address : Nat) (small : index < 4)
    (cleared : ∀ other < 4, mask >>> (8 * other) &&& 0xff = if 8 * other = 8 * index then 0 else 0xff) :
    memory.store address (memory.load address &&& mask ||| byte.toNat <<< (8 * index)) =
      memory.write (address + index) byte := by
  have bytes : ∀ other < 4, UInt8.ofNat ((memory.load address &&& mask ||| byte.toNat <<< (8 * index)) >>> (8 * other)) =
      if 8 * other = 8 * index then byte else UInt8.ofNat (memory.load address >>> (8 * other)) :=
    fun other below => replaced_byte _ _ _ _ _ (cleared other below)
      (placed_byte byte index other small below)
  apply store_eq_write small
  · rw [bytes index small, if_pos rfl]
  · intro other below different
    rw [bytes other below, if_neg (by omega), load_byte memory address below]

end Words

section Bytes
variable {memory : Memory} {destination source count : Nat}

theorem unalignedReadU8_eq (memory : Memory) (source : Nat) :
    unalignedReadU8 memory source = memory source := by
  have inside : source % 4 < 4 := Nat.mod_lt _ (by decide)
  rw [unalignedReadU8, ofNat_and, load_byte memory _ inside, Nat.sub_add_cancel (Nat.mod_le _ _)]

theorem unalignedWriteU8_eq (memory : Memory) (destination : Nat) (newValue : UInt8) :
    unalignedWriteU8 memory destination newValue = memory.write destination newValue := by
  have word : destination - destination % 4 + destination % 4 = destination :=
    Nat.sub_add_cancel (Nat.mod_le _ _)
  have replaced (index mask : Nat) (same : destination % 4 = index)
      (cleared : ∀ other < 4, mask >>> (8 * other) &&& 0xff = if 8 * other = 8 * index then 0 else 0xff) :
      memory.store (destination - destination % 4)
        (memory.load (destination - destination % 4) &&& mask ||| newValue.toNat <<< (8 * index)) =
          memory.write destination newValue := by
    rw [store_replaced memory _ (by omega) cleared, ← same, word]
  unfold unalignedWriteU8
  simp only
  by_cases first : destination % 4 = 0
  · rw [if_pos first]
    exact replaced 0 0xffffff00 first (by decide)
  by_cases second : destination % 4 = 1
  · rw [if_neg first, if_pos second]
    exact replaced 1 0xffff00ff second (by decide)
  by_cases third : destination % 4 = 2
  · rw [if_neg first, if_neg second, if_pos third]
    exact replaced 2 0xff00ffff third (by decide)
  · have fourth : destination % 4 = 3 := by omega
    rw [if_neg first, if_neg second, if_neg third, if_pos fourth]
    exact replaced 3 0x00ffffff fourth (by decide)

/-- From left to right, with the source above: the bytes still to be read are untouched. -/
theorem copyUp_eq (above : destination ≤ source) (fits : source + count ≤ 2 ^ 32) :
    copyUp destination source count memory = memory.copy destination source count := by
  induction count with
  | zero =>
    funext other
    rw [copyUp, Memory.copy, if_neg (by omega)]
  | succ i ih =>
    rw [copyUp, ih (by omega), unalignedWriteU8_eq, unalignedReadU8_eq, wrap_of_lt (by omega), wrap_of_lt (by omega)]
    funext other
    unfold Memory.write Memory.copy
    by_cases last : other = destination + i
    · subst last
      rw [if_pos rfl, if_neg (by omega), if_pos (by omega), Nat.add_sub_cancel_left]
    · rw [if_neg last]
      by_cases inside : destination ≤ other ∧ other < destination + i
      · rw [if_pos inside, if_pos (by omega)]
      · rw [if_neg inside, if_neg (by omega)]

/-- From right to left, with the source below: after some steps the upper end is copied. -/
theorem copyDown_eq {steps : Nat} (below : source < destination)
    (fits : destination + count ≤ 2 ^ 32)
    (bounded : steps ≤ count) :
    copyDown destination source count steps memory =
      memory.copy (destination + (count - steps)) (source + (count - steps)) steps := by
  induction steps with
  | zero =>
    funext other
    rw [copyDown, Memory.copy, if_neg (by omega)]
  | succ i ih =>
    have place {start : Nat} (low : start + count ≤ 2 ^ 32) :
        minus (minus (wrap (start + count)) i) 1 = start + (count - (i + 1)) := by
      unfold minus wrap
      omega
    rw [copyDown, ih (by omega), unalignedWriteU8_eq, unalignedReadU8_eq, place fits, place (by omega)]
    funext other
    unfold Memory.write Memory.copy
    by_cases first : other = destination + (count - (i + 1))
    · subst first
      rw [if_pos rfl, if_neg (by omega), if_pos (by omega), Nat.sub_self]
      rfl
    · rw [if_neg first]
      by_cases inside : destination + (count - i) ≤ other ∧ other < destination + (count - i) + i
      · rw [if_pos inside, if_pos (by omega)]
        congr 1
        omega
      · rw [if_neg inside, if_neg (by omega)]

theorem aeabiMemmove_eq (memory : Memory) (destinationFits : destination + count ≤ 2 ^ 32)
    (sourceFits : source + count ≤ 2 ^ 32) :
    aeabiMemmove memory destination source count = memory.copy destination source count := by
  unfold aeabiMemmove
  by_cases above : destination ≤ source
  · rw [if_pos above, copyUp_eq above sourceFits]
  · rw [if_neg above, copyDown_eq (Nat.not_le.mp above) destinationFits (Nat.le_refl _),
      Nat.sub_self, Nat.add_zero, Nat.add_zero]

end Bytes

/-- Every byte of the destination becomes what the source held before the call, however the
two overlap, and nothing else changes. -/
theorem memmove_moves (memory : Memory) (destination source count : Nat) (_ : count < 2 ^ 31)
    (destinationFits : destination + count ≤ 2 ^ 32) (sourceFits : source + count ≤ 2 ^ 32) :
    (∀ i < count, aeabiMemmove memory destination source count (destination + i) =
      memory (source + i)) ∧
    ∀ address, address < destination ∨ destination + count ≤ address →
      aeabiMemmove memory destination source count address = memory address := by
  rw [aeabiMemmove_eq memory destinationFits sourceFits]
  constructor
  · intro i inside
    rw [Memory.copy, if_pos (by omega), Nat.add_sub_cancel_left]
  · intro address outside
    rw [Memory.copy, if_neg (by omega)]

theorem memmove_moves_overlapping :
    aeabiMemmove (fun address => .ofNat address) 0x20000003 0x20000001 5 0x20000005 = 3 :=
  (memmove_moves (fun address => .ofNat address) 0x20000003 0x20000001 5 (by decide) (by decide) (by decide)).1 2 (by decide)

end PicoOs.Userland
