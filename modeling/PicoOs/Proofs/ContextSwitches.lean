import PicoOs.Kernel.ContextSwitch

/-! A switch saves the registers of one thread and restores those of another. -/

namespace PicoOs.Kernel
open Library Thumb

theorem padded_withPadding (xpsr : UInt32) {padding : Nat} (small : padding < 2) :
    padded (withPadding xpsr padding) = padding := by
  have bound := xpsr.toNat_lt
  rw [padded, withPadding, UInt32.toNat_ofNat_of_lt' (by rw [UInt32.size]; omega)]
  omega

theorem withPadding_withPadding (xpsr : UInt32) {padding : Nat} (small : padding < 2) :
    withPadding (withPadding xpsr padding) 0 = withPadding xpsr 0 := by
  have bound := xpsr.toNat_lt
  have inner : (withPadding xpsr padding).toNat = xpsr.toNat / 2 ^ 10 * 2 ^ 10 + padding * 2 ^ 9 +
    xpsr.toNat % 2 ^ 9 :=
    UInt32.toNat_ofNat_of_lt' (by rw [UInt32.size]; omega)
  rw [withPadding, inner, withPadding]
  generalize xpsr.toNat = value
  exact congrArg UInt32.ofNat (by omega)

theorem withPadding_zero {xpsr : UInt32} (clear : padded xpsr = 0) : withPadding xpsr 0 = xpsr := by
  have bound := xpsr.toNat_lt
  unfold padded at clear
  apply UInt32.toNat.inj
  rw [withPadding, UInt32.toNat_ofNat_of_lt' (by rw [UInt32.size]; omega)]
  omega

section
variable {processor : Processor} {register : Register} {registers : List Register}

private theorem address_sub (room : 4 ≤ processor.address .r0) :
    (processor.registers .r0 - 4).toNat = processor.address .r0 - 4 := by
  exact UInt32.toNat_sub_of_le _ 4 (UInt32.le_iff_toNat_le.mpr room)

theorem address_add {value : UInt32} {further : Nat} (small : further < 2 ^ 32)
    (fits : value.toNat + further < 2 ^ 32) :
    (value + .ofNat further).toNat = value.toNat + further := by
  rw [UInt32.toNat_add, UInt32.toNat_ofNat_of_lt' small, Nat.mod_eq_of_lt fits]

private theorem run_pushRegister (aligned : processor.address .r0 % 4 = 0)
    (room : 4 ≤ processor.address .r0) :
    ∃ after, run (pushRegister register) processor = .ok after ∧
      after.memory = processor.memory.store (processor.address .r0 - 4)
        (processor.registers register).toNat ∧
      after.address .r0 = processor.address .r0 - 4 ∧ after.pc = processor.pc ∧
      ∀ kept, kept ≠ .r0 → kept ≠ .r1 → after.registers kept = processor.registers kept := by
  have bottom := address_sub room
  have even : (processor.registers .r0 - 4 + 0).toNat % 4 = 0 := by
    rw [UInt32.add_zero, bottom]
    omega
  let moved := processor.set .r1 (processor.registers register)
  let lowered := (moved.setFlags (moved.registers .r0) (~~~4) 1).set .r0
    (processor.registers .r0 - 4)
  refine ⟨{ lowered with memory := processor.memory.store (processor.registers .r0 - 4 + 0).toNat (processor.registers register).toNat },
    ?_, ?_, bottom, rfl, ?_⟩
  · have first : run (pushRegister register) processor = run [.str .r1 .r0 0] lowered := rfl
    have stored : (Instruction.str .r1 .r0 0).execute lowered = .ok { lowered with
        memory := processor.memory.store (processor.registers .r0 - 4 + 0).toNat
          (processor.registers register).toNat } := execute_str even
    rw [first, run_cons, stored]
    rfl
  · rw [UInt32.add_zero, bottom]
  · intro kept first second
    exact (Function.update_of_ne first ..).trans (Function.update_of_ne second ..)

private theorem run_pushRegisters (others : ∀ register ∈ registers, register ≠ .r0 ∧ register ≠ .r1)
    (aligned : processor.address .r0 % 4 = 0)
    (room : 4 * registers.length ≤ processor.address .r0) :
    ∃ after, run (registers.flatMap pushRegister) processor = .ok after ∧
      after.memory = pushWords processor.memory (processor.address .r0)
        (registers.map processor.registers) ∧
      after.address .r0 = processor.address .r0 - 4 * registers.length ∧ after.pc = processor.pc ∧
      ∀ kept, kept ≠ .r0 → kept ≠ .r1 → after.registers kept = processor.registers kept := by
  induction registers generalizing processor with
  | nil => exact ⟨processor, rfl, rfl, rfl, rfl, fun _ _ _ => rfl⟩
  | cons register registers ih =>
    rw [List.forall_mem_cons] at others
    rw [List.length_cons] at room
    obtain ⟨middle, pushed, memory, address, pc, kept⟩ :=
      @run_pushRegister processor register aligned (by omega)
    obtain ⟨after, rest, restMemory, restAddress, restPc, restKept⟩ :=
      @ih middle others.2 (by omega) (by omega)
    have same : registers.map middle.registers = registers.map processor.registers :=
      List.map_congr_left fun other member =>
        kept other (others.2 other member).1 (others.2 other member).2
    refine ⟨after, ?_, ?_, ?_, restPc.trans pc,
      fun other first second => (restKept other first second).trans (kept other first second)⟩
    · rw [List.flatMap_cons, run_append_ok pushed]
      exact rest
    · rw [restMemory, memory, address, same]
      rfl
    · rw [restAddress, address, List.length_cons]
      omega

private theorem run_popRegister (other : register ≠ .r0) (aligned : processor.address .r0 % 4 = 0)
    (room : processor.address .r0 + 4 < 2 ^ 32)
    {value : UInt32} (there : processor.memory.load (processor.address .r0) = value.toNat) :
    ∃ after, run (popRegister register) processor = .ok after ∧ after.memory = processor.memory ∧
      after.address .r0 = processor.address .r0 + 4 ∧ after.pc = processor.pc ∧
      after.registers register = value ∧
      ∀ kept, kept ≠ .r0 → kept ≠ .r1 → kept ≠ register →
      after.registers kept = processor.registers kept := by
  have top : (processor.registers .r0 + 4).toNat = processor.address .r0 + 4 :=
    address_add (by decide : 4 < 2 ^ 32) room
  have even : (processor.registers .r0 + 0).toNat % 4 = 0 := by rwa [UInt32.add_zero]
  have loaded : processor.memory.load (processor.registers .r0 + 0).toNat = value.toNat := by
    rwa [UInt32.add_zero]
  let held := processor.set .r1 value
  let raised := (held.setFlags (held.registers .r0) 4 0).set .r0 (processor.registers .r0 + 4)
  refine ⟨raised.set register (raised.registers .r1), ?_, rfl, ?_, rfl, ?_, ?_⟩
  · rw [popRegister, run_cons, execute_ldr even loaded]
    rfl
  · exact (congrArg UInt32.toNat (Function.update_of_ne other.symm ..)).trans top
  · exact Function.update_self ..
  · intro kept first second third
    exact (Function.update_of_ne third ..).trans ((Function.update_of_ne first ..).trans (Function.update_of_ne second ..))

theorem run_popRegisters (others : ∀ register ∈ registers, register ≠ .r0 ∧ register ≠ .r1)
    (distinct : registers.Nodup)
    (aligned : processor.address .r0 % 4 = 0)
    (room : processor.address .r0 + 4 * registers.length < 2 ^ 32) {values : List UInt32}
    (same : values.length = registers.length)
    (there : Words processor.memory (processor.address .r0) values) :
    ∃ after, run (registers.flatMap popRegister) processor = .ok after ∧
    after.memory = processor.memory ∧
      after.address .r0 = processor.address .r0 + 4 * registers.length ∧ after.pc = processor.pc ∧
      registers.map after.registers = values ∧
      ∀ kept, kept ≠ .r0 → kept ≠ .r1 → kept ∉ registers →
      after.registers kept = processor.registers kept := by
  induction registers generalizing processor values with
  | nil =>
    obtain rfl := List.length_eq_zero_iff.mp same
    exact ⟨processor, rfl, rfl, rfl, rfl, rfl, fun _ _ _ _ => rfl⟩
  | cons register registers ih =>
    obtain ⟨value, values, rfl⟩ := List.exists_cons_of_length_eq_add_one same
    rw [List.forall_mem_cons] at others
    rw [List.nodup_cons] at distinct
    rw [List.length_cons] at room
    obtain ⟨middle, popped, memory, address, pc, held, kept⟩ :=
      run_popRegister others.1.1 aligned (by omega) there.1
    have next : Words middle.memory (middle.address .r0) values := memory ▸ address ▸ there.2
    obtain ⟨after, rest, restMemory, restAddress, restPc, restHeld, restKept⟩ :=
      @ih middle others.2 distinct.2 (by omega) (by omega) values (Nat.succ.inj same) next
    refine ⟨after, ?_, restMemory.trans memory, ?_, restPc.trans pc, ?_, ?_⟩
    · rw [List.flatMap_cons, run_append_ok popped]
      exact rest
    · rw [restAddress, address, List.length_cons]
      omega
    · rw [List.map_cons, restHeld, restKept register others.1.1 others.1.2 distinct.1, held]
    · intro other first second unlisted
      rw [List.mem_cons, not_or] at unlisted
      exact (restKept other first second unlisted.2).trans (kept other first second unlisted.1)

end
namespace FullRegisterContext
variable {memory : Memory} {address : Nat} {context : FullRegisterContext}

theorem words_load (memory : Memory) (address : Nat) :
    Words memory address (load memory address).words := by
  have word (index : Nat) : memory.load (address + 4 * index) =
    (UInt32.ofNat (memory.load (address + 4 * index))).toNat :=
    (UInt32.toNat_ofNat_of_lt' (memory.load_lt _)).symm
  exact ⟨word 0, word 1, word 2, word 3, word 4, word 5, word 6, word 7, word 8, word 9, word 10,
    word 11, word 12, word 13, word 14, word 15,
    trivial⟩

theorem load_of_words (words : Words memory address context.words) :
    load memory address = context := by
  obtain ⟨w0, w1, w2, w3, w4, w5, w6, w7, w8, w9, w10, w11, w12, w13, w14, w15, _⟩ := words
  have word {place : Nat} {value : UInt32} (there : memory.load place = value.toNat) :
    UInt32.ofNat (memory.load place) = value := by
    rw [there, UInt32.ofNat_toNat]
  exact congr (congr (congr (congr (congr (congr (congr (congr (congr (congr (congr (congr (congr (congr (congr (congrArg FullRegisterContext.mk
    (word w0)) (word w1)) (word w2)) (word w3)) (word w4)) (word w5)) (word w6)) (word w7)) (word
      w8)) (word w9)) (word w10)) (word w11))
    (word w12)) (word w13)) (word w14)) (word w15)

theorem load_agree {after : Memory} (agree : memory.Agree after address (address + size)) :
    load after address = load memory address :=
  load_of_words ((words_load memory address).agree agree)

end FullRegisterContext


def savedContext (processor : Processor) : FullRegisterContext :=
  { FullRegisterContext.current processor with xpsr := withPadding processor.xpsr (processor.address .sp % 8 / 4) }

section
variable {processor : Processor}

private theorem isrBegin_pushes (aligned : processor.address .sp % 4 = 0)
    (room : 32 ≤ processor.address .sp) (pushLink callLink : UInt32) :
    ∃ after, run (isrBegin pushLink callLink) processor = .ok after ∧
      after.memory = pushWords processor.memory (processor.address .sp)
        ([.r4, .r5, .r6, .r7, .r8, .r9, .r10, .r11].map processor.registers) ∧
      after.address .r0 = processor.address .sp - 32 := by
  let started := (processor.set .r0 (processor.registers .sp)).set .lr pushLink
  have top : started.address .r0 = processor.address .sp := rfl
  have started_even : started.address .r0 % 4 = 0 := by rwa [top]
  have started_room : 4 * [Register.r4, .r5, .r6, .r7, .r8, .r9, .r10, .r11].length ≤
    started.address .r0 := by rwa [top]
  obtain ⟨pushed, ran, memory, address, _, _⟩ :=
    run_pushRegisters (by decide) started_even started_room
  have begins : run [.mrsPsp .r0, .isb, .bl pushLink] processor = .ok started := rfl
  refine ⟨pushed.set .lr callLink, ?_, memory, address⟩
  rw [isrBegin, List.append_assoc, run_append_ok begins, pushCalleeSavedRegisters,
    run_append_ok ran]
  rfl

private theorem isrEnd_pops (aligned : processor.address .r0 % 4 = 0)
    (room : processor.address .r0 + 32 < 2 ^ 32) {values : List UInt32}
    (eight : values.length = 8) (there : Words processor.memory (processor.address .r0) values)
    (popLink : UInt32) :
    ∃ after, run (isrEnd popLink) processor = .ok after ∧ after.memory = processor.memory ∧
      after.address .sp = processor.address .r0 + 32 ∧
      [.r11, .r10, .r9, .r8, .r7, .r6, .r5, .r4].map after.registers = values := by
  obtain ⟨popped, ran, memory, address, _, held, _⟩ := @run_popRegisters (processor.set .lr popLink)
    [.r11, .r10, .r9, .r8, .r7, .r6, .r5,
      .r4] (by decide) (by decide) aligned room values eight there
  have begins : run [.bl popLink] processor = .ok (processor.set .lr popLink) := rfl
  refine ⟨(popped.set .sp (popped.registers .r0)).set .r0 0xfffffffd, ?_, memory, address, held⟩
  rw [isrEnd, List.append_assoc, run_append_ok begins, popCalleeSavedRegisters, run_append_ok ran]
  rfl

private theorem address_enterException (bound : processor.frameAddress < 2 ^ 32) (number : Nat) :
    (enterException number processor).address .sp = processor.frameAddress := by
  have held : (enterException number processor).registers .sp = .ofNat processor.frameAddress := rfl
  rw [Processor.address, held, UInt32.toNat_ofNat_of_lt' bound]

theorem frameAddress_bounds (aligned : processor.address .sp % 4 = 0)
    (room : 68 < processor.address .sp) :
    40 ≤ processor.frameAddress ∧ processor.frameAddress % 8 = 0 ∧ processor.frameAddress < 2 ^ 32 ∧
      processor.frameAddress + 32 + 4 * (processor.address .sp % 8 / 4) =
        processor.address .sp := by
  have bound : processor.address .sp < 2 ^ 32 := (processor.registers .sp).toNat_lt
  rw [Processor.frameAddress]
  omega

private theorem savedContext_words (processor : Processor) :
    (savedContext processor).words =
      ([.r4, .r5, .r6, .r7, .r8, .r9, .r10, .r11].map processor.registers).reverse ++
        processor.frame := rfl

theorem isrBegin_saves (aligned : processor.address .sp % 4 = 0) (room : 68 < processor.address .sp)
    (number : Nat) (pushLink callLink : UInt32) :
    ∃ after, run (isrBegin pushLink callLink) (enterException number processor) = .ok after ∧
      after.address .r0 = SwitchState.contextAddress processor ∧
      Words after.memory (SwitchState.contextAddress processor) (savedContext processor).words ∧
      ∀ start stop, stop ≤ SwitchState.contextAddress processor ∨ processor.address .sp ≤ start →
        processor.memory.Agree after.memory start stop := by
  obtain ⟨low, even, bound, high⟩ := frameAddress_bounds aligned room
  have entered := address_enterException bound number
  have started : (enterException number processor).address .sp % 4 = 0 := by omega
  have space : 32 ≤ (enterException number processor).address .sp := by omega
  obtain ⟨after, ran, memory, address⟩ := isrBegin_pushes started space pushLink callLink
  have same : [.r4, .r5, .r6, .r7, .r8, .r9, .r10, .r11].map
    (enterException number processor).registers =
      [.r4, .r5, .r6, .r7, .r8, .r9, .r10, .r11].map processor.registers := rfl
  have stacked : (enterException number processor).memory =
    storeWords processor.memory processor.frameAddress processor.frame := rfl
  have eight : ([.r4, .r5, .r6, .r7, .r8, .r9, .r10, .r11].map processor.registers).length = 8 :=
    rfl
  have frame : processor.frame.length = 8 := rfl
  rw [entered, same, stacked] at memory
  rw [entered] at address
  rw [savedContext_words]
  generalize [Register.r4, .r5, .r6, .r7, .r8, .r9, .r10, .r11].map
    processor.registers = pushed at *
  have bottom : SwitchState.contextAddress processor = processor.frameAddress - 4 * pushed.length :=
    by rw [eight]; rfl
  have between : SwitchState.contextAddress processor + 4 * pushed.reverse.length =
    processor.frameAddress := by
    rw [List.length_reverse, bottom]
    omega
  refine ⟨after, ran, address, ?_, ?_⟩
  · rw [words_append, between, memory]
    refine ⟨?_, words_storeWords.agree (pushWords_agree (by omega) (.inr (Nat.le_refl _)))⟩
    rw [bottom]
    exact words_pushWords (by omega)
  · intro start stop apart
    rw [memory]
    exact (storeWords_agree (by omega)).trans (pushWords_agree (by omega) (by omega))

def resumedContext (memory : Memory) (address : Nat) : FullRegisterContext :=
  { FullRegisterContext.load memory address with xpsr := withPadding (FullRegisterContext.load memory address).xpsr 0 }

theorem words_injective : Function.Injective FullRegisterContext.words := by
  rintro ⟨⟩ ⟨⟩ same
  simp only [FullRegisterContext.words, List.cons.injEq, and_true] at same
  simpa only [FullRegisterContext.mk.injEq] using same

theorem isrEnd_restores {address : Nat} (there : processor.address .r0 = address)
    (aligned : address % 4 = 0) (room : address + 68 < 2 ^ 32)
    (popLink : UInt32) :
    ∃ after, run (isrEnd popLink) processor = .ok after ∧
      (returnFromException after).memory = processor.memory ∧
      (returnFromException after).address .sp =
        FullRegisterContext.stackPointer processor.memory address ∧
      FullRegisterContext.current (returnFromException after) =
        resumedContext processor.memory address := by
  have words := FullRegisterContext.words_load processor.memory address
  have split : (FullRegisterContext.load processor.memory address).words =
      (FullRegisterContext.load processor.memory address).words.take 8 ++
        (FullRegisterContext.load processor.memory address).words.drop 8 :=
    (List.take_append_drop ..).symm
  rw [split, words_append] at words
  obtain ⟨after, ran, memory, stack, held⟩ :=
    isrEnd_pops (there ▸ aligned) (by omega) (rfl : ((FullRegisterContext.load processor.memory address).words.take 8).length = 8)
      (there ▸ words.1) popLink
  have word (index : Nat) : UInt32.ofNat (after.memory.load (after.address .sp + 4 * index)) =
      .ofNat (processor.memory.load (address + 4 * (8 + index))) := by
    rw [memory, stack, there]
    exact congrArg (fun place => UInt32.ofNat (processor.memory.load place)) (by omega)
  have padding : padded (.ofNat (processor.memory.load (address + 4 * (8 + 7)))) < 2 :=
    Nat.mod_lt _ (by decide)
  refine ⟨after, ran, memory, ?_, ?_⟩
  · have pointer : (returnFromException after).registers .sp =
        .ofNat (after.address .sp + 32 + 4 * padded (.ofNat (after.memory.load (after.address .sp + 4 * 7)))) := rfl
    have above : FullRegisterContext.stackPointer processor.memory address =
        address + 64 + 4 * padded (.ofNat (processor.memory.load (address + 4 * (8 + 7)))) := rfl
    rw [Processor.address, pointer, word, above, stack, there,
      UInt32.toNat_ofNat_of_lt' (by rw [UInt32.size]; omega)]
  · apply words_injective
    have left : (FullRegisterContext.current (returnFromException after)).words =
        [.r11, .r10, .r9, .r8, .r7, .r6, .r5, .r4].map after.registers ++
        [.ofNat (after.memory.load (after.address .sp + 4 * 0)),
          .ofNat (after.memory.load (after.address .sp + 4 * 1)),
          .ofNat (after.memory.load (after.address .sp + 4 * 2)),
            .ofNat (after.memory.load (after.address .sp + 4 * 3)),
          .ofNat (after.memory.load (after.address .sp + 4 * 4)),
            .ofNat (after.memory.load (after.address .sp + 4 * 5)),
          .ofNat (after.memory.load (after.address .sp + 4 * 6)),
          withPadding (.ofNat (after.memory.load (after.address .sp + 4 * 7))) 0] := rfl
    rw [left, held, word, word, word, word, word, word, word, word]
    rfl

end
end PicoOs.Kernel
