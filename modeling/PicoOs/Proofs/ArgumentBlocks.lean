import PicoOs.Library.Outcome
import PicoOs.Proofs.ProgramArguments

/-! The block of arguments that a program finds on its stack: if no assertion has fired, there
was room for all of it, and nothing in it overlaps. -/

namespace PicoOs.Kernel
open Library PicoOs.Std

namespace StackWrapper
variable {stack after : StackWrapper}

theorem reserve_ok {count : Nat} (reserved : stack.reserve count = .ok after) :
    stack.bytes.data + count ≤ stack.top ∧ after = { stack with top := stack.top - count } := by
  unfold reserve at reserved
  split at reserved
  next room => exact ⟨room, (Except.ok.inj reserved).symm⟩
  next => cases reserved

theorem pushValue_ok {value : Nat} (pushed : stack.pushValue value = .ok after) :
    stack.bytes.data + 4 ≤ stack.top ∧ after = stack.withValue value := by
  obtain ⟨reserved, step, rest⟩ := bind_ok.mp pushed
  obtain ⟨room, rfl⟩ := reserve_ok step
  exact ⟨room, (Except.ok.inj rest).symm⟩

/-- The padding fits whenever the string does, since the bottom is aligned as well. -/
theorem pushCString_ok {string : CString} (aligned : stack.top % 4 = 0)
    (bottom : stack.bytes.data % 4 = 0)
    (pushed : stack.pushCString string = .ok after) :
    stack.bytes.data + footprint string ≤ stack.top ∧ after = stack.withString string := by
  obtain ⟨reserved, step, -⟩ := bind_ok.mp pushed
  obtain ⟨room, -⟩ := reserve_ok step
  have padded : stack.bytes.data + footprint string ≤ stack.top := by
    unfold footprint
    omega
  exact ⟨padded, Except.ok.inj (pushed.symm.trans (pushCString_eq string aligned bottom padded))⟩

private theorem pushCStrings_room {strings : List CString} {pushes : List Nat × StackWrapper}
    (aligned : stack.top % 4 = 0)
    (bottom : stack.bytes.data % 4 = 0) (above : stack.bytes.data ≤ stack.top)
    (pushed : stack.pushCStrings strings = .ok pushes) :
    stack.bytes.data + stringsSize strings ≤ stack.top := by
  induction strings generalizing stack pushes with
  | nil => exact above
  | cons string strings ih =>
    obtain ⟨middle, first, rest⟩ := bind_ok.mp pushed
    obtain ⟨later, others, -⟩ := bind_ok.mp rest
    obtain ⟨room, rfl⟩ := pushCString_ok aligned bottom first
    have whole : footprint string % 4 = 0 := Nat.mul_mod_left _ _
    have split : stringsSize (string :: strings) = footprint string + stringsSize strings :=
      List.sum_cons
    have lower : (stack.withString string).top = stack.top - footprint string := rfl
    have same : (stack.withString string).bytes = stack.bytes := rfl
    have fits := @ih (stack.withString string) later (by omega) bottom (by rw [same]; omega) others
    rw [same] at fits
    omega

private theorem pushPointers_room {pointers : List Nat} (above : stack.bytes.data ≤ stack.top)
    (pushed : pointers.foldlM pushValue stack = .ok after) :
    stack.bytes.data + 4 * pointers.length ≤ stack.top := by
  induction pointers generalizing stack with
  | nil => exact above
  | cons pointer pointers ih =>
    obtain ⟨middle, first, rest⟩ := bind_ok.mp pushed
    obtain ⟨room, rfl⟩ := pushValue_ok first
    have lower : (stack.withValue pointer).top = stack.top - 4 := rfl
    have same : (stack.withValue pointer).bytes = stack.bytes := rfl
    have fits := @ih (stack.withValue pointer) (by rw [same]; omega) rest
    rw [same] at fits
    rw [List.length_cons]
    omega

private theorem pushCStringArray_room {strings : List CString} (aligned : stack.top % 4 = 0)
    (bottom : stack.bytes.data % 4 = 0)
    (above : stack.bytes.data ≤ stack.top) (pushed : stack.pushCStringArray strings = .ok after) :
    stack.bytes.data + arraySize strings ≤ stack.top := by
  obtain ⟨copies, collected, rest⟩ := bind_ok.mp pushed
  obtain ⟨middle, terminated, filled⟩ := bind_ok.mp rest
  obtain ⟨pointers, copied, also, extended, top, each, -⟩ :=
    pushCStrings_spec strings aligned bottom (pushCStrings_room aligned bottom above collected)
  obtain rfl : copies = (pointers, copied) := Except.ok.inj (collected.symm.trans also)
  obtain ⟨room, rfl⟩ := pushValue_ok terminated
  have same : copied.bytes = stack.bytes := extended.bytes
  have fits := @pushPointers_room (copied.withValue 0) _ _ (Nat.le_sub_of_add_le room) filled
  change copied.bytes.data + 4 * pointers.reverse.length ≤ copied.top - 4 at fits
  change copied.bytes.data + 4 ≤ copied.top at room
  rw [List.length_reverse, each.length_eq, same] at fits
  rw [same] at room
  unfold arraySize
  omega

private theorem pushCStringArray_ok {strings : List CString} (aligned : stack.top % 4 = 0)
    (bottom : stack.bytes.data % 4 = 0)
    (above : stack.bytes.data ≤ stack.top) (high : stack.top ≤ 2 ^ 32)
    (pushed : stack.pushCStringArray strings = .ok after) :
    stack.Extends after ∧ (after.top % 4 = 0 ∧ after.bytes.data ≤ after.top) ∧
      ∀ memory, after.memory.AgreeFrom memory after.top → memory.HoldsStrings after.top strings ∧
        Area.Descends 4 stack.top (areas memory after.top strings) after.top := by
  have room := pushCStringArray_room aligned bottom above pushed
  obtain ⟨other, also, extended, top, holds⟩ :=
    pushCStringArray_spec strings aligned bottom high room
  obtain rfl := Except.ok.inj (also.symm.trans pushed)
  have whole := stringsSize_words strings
  have size : arraySize strings = stringsSize strings + 4 * (strings.length + 1) := rfl
  exact ⟨extended, ⟨by omega, by rw [extended.bytes]; omega⟩, holds⟩

end StackWrapper

def ProgramEntry.areas (entry : ProgramEntry) (arguments environment : List CString) : List Area :=
  StackWrapper.areas entry.memory entry.argv arguments ++
    StackWrapper.areas entry.memory entry.envp environment

/-- When the program is entered, its strings are found in order through both arrays, and nothing of
what was put on the stack overlaps, is not aligned, or lies outside the range or below the final
top. -/
theorem argument_block {memory : Memory} {bytes : Bytes} {arguments environment : List CString}
    {entry : ProgramEntry}
    (bottom : bytes.data % 4 = 0) (words : bytes.size % 4 = 0)
    (high : bytes.data + bytes.size ≤ 2 ^ 32)
    (entered : enterProgram memory bytes arguments environment = .ok entry) :
    entry.memory.HoldsStrings entry.argv arguments ∧
    entry.memory.HoldsStrings entry.envp environment ∧
      (entry.areas arguments environment).Pairwise Area.Separate ∧ bytes.data ≤ entry.envp ∧
        ∀ area ∈ entry.areas arguments environment, area.address % 4 = 0 ∧
          entry.envp ≤ area.address ∧ area.address + area.count ≤ bytes.data + bytes.size := by
  obtain ⟨first, pushed, rest⟩ := bind_ok.mp entered
  obtain ⟨second, also, ends⟩ := bind_ok.mp rest
  obtain rfl := Except.ok.inj ends
  have start : (bytes.data + bytes.size) % 4 = 0 := by omega
  obtain ⟨grows, ⟨aligned, above⟩, argv⟩ :=
    @StackWrapper.pushCStringArray_ok (.construct memory bytes) _ _ start bottom
      (Nat.le_add_right _ _) high pushed
  have same : first.bytes = bytes := grows.bytes
  obtain ⟨extended, ⟨_, lowest⟩, envp⟩ :=
    StackWrapper.pushCStringArray_ok aligned (by rw [same]; exact bottom) above (grows.descends.trans high) also
  obtain ⟨arguments, upper⟩ := argv second.memory extended.above
  obtain ⟨environment, lower⟩ := envp second.memory (.refl _ _)
  have block := upper.append lower
  exact ⟨arguments, environment, block.separate,
    by rwa [extended.bytes, same] at lowest, block.inside⟩

theorem argument_block_some : ∃ entry, enterProgram (fun _ => 0) programStack [listing]
    [assignment] = .ok entry ∧
    entry.memory.HoldsStrings entry.argv [listing] ∧
    (entry.areas [listing] [assignment]).Pairwise Area.Separate := by
  have fits : StackWrapper.arraySize [listing] + StackWrapper.arraySize [assignment] ≤
    programStack.size := by decide
  obtain ⟨entry, entered, -⟩ := enterProgram_spec programStack_range fits
  obtain ⟨arguments, -, separate, -⟩ := argument_block (by decide) (by decide) (by decide) entered
  exact ⟨entry, entered, arguments, separate⟩

end PicoOs.Kernel
