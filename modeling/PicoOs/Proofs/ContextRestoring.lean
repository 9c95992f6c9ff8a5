import PicoOs.Proofs.ContextSwitches

/-! How the first thread is entered, without an exception to return from. -/

namespace PicoOs.Kernel
open Library Thumb

section
variable {processor : Processor}

private theorem flags_msr (xpsr other : UInt32) :
    (xpsr &&& 0x0fffffff ||| other &&& 0xf0000000) &&& 0xf0000000 = other &&& 0xf0000000 := by
  have apart : (0x0fffffff : BitVec 32) &&& 0xf0000000 = 0#32 := rfl
  apply UInt32.toBitVec_inj.mp
  have left : (xpsr.toBitVec &&& 0x0fffffff ||| other.toBitVec &&& 0xf0000000) &&& 0xf0000000 =
    other.toBitVec &&& 0xf0000000 := by
    rw [BitVec.and_or_distrib_right, BitVec.and_assoc, apart, BitVec.and_zero, BitVec.zero_or,
      BitVec.and_assoc, BitVec.and_self]
  exact left

private theorem restoreContextFromThreadMode_pops (aligned : processor.address .r0 % 4 = 0)
    (room : processor.address .r0 + 32 < 2 ^ 32) {values : List UInt32}
    (eight : values.length = 8) (there : Words processor.memory (processor.address .r0) values)
    (popLink : UInt32) :
    ∃ after, run ([.bl popLink] ++ popCalleeSavedRegisters) processor = .ok after ∧
    after.memory = processor.memory ∧
      after.address .r0 = processor.address .r0 + 32 ∧
      [.r11, .r10, .r9, .r8, .r7, .r6, .r5, .r4].map after.registers = values := by
  obtain ⟨popped, ran, memory, address, _, held, _⟩ := @run_popRegisters (processor.set .lr popLink)
    [.r11, .r10, .r9, .r8, .r7, .r6, .r5,
      .r4] (by decide) (by decide) aligned room values eight there
  have begins : run [.bl popLink] processor = .ok (processor.set .lr popLink) := rfl
  exact ⟨popped, (run_append_ok begins).trans ran, memory, address, held⟩

private theorem run_readFrame {frame : Nat} {w0 w1 w2 w3 ip lr pc xpsr : UInt32}
    (there : processor.address .r0 = frame) (aligned : frame % 4 = 0)
    (room : frame + 32 < 2 ^ 32)
    (words : Words processor.memory frame [w0, w1, w2, w3, ip, lr, pc, xpsr]) :
    ∃ after, run [.mov .sp .r0, .ldr .r0 .sp 0x10, .mov .ip .r0, .ldr .r0 .sp 0x14, .mov .lr .r0,
      .ldr .r0 .sp 0x1c, .msrApsr .r0, .isb]
        processor = .ok after ∧ after.memory = processor.memory ∧ after.address .sp = frame ∧
      after.registers .ip = ip ∧ after.registers .lr = lr ∧
      after.xpsr &&& 0xf0000000 = xpsr &&& 0xf0000000 ∧
      ∀ kept ∈ [Register.r11, .r10, .r9, .r8, .r7, .r6, .r5, .r4],
      after.registers kept = processor.registers kept := by
  obtain ⟨-, -, -, -, atIp, atLr, -, atXpsr, -⟩ := words
  have place (offset : Nat) (small : offset < 32) : (processor.registers .r0 + .ofNat offset).toNat = frame + offset := by
    rw [address_add (by omega) (by rw [← Processor.address, there]; omega), ← Processor.address, there]
  have loaded (middle : Processor) (memory : middle.memory = processor.memory)
    (base : middle.registers .sp = processor.registers .r0)
      (offset : UInt32) (small : offset.toNat < 32) (even : offset.toNat % 4 = 0) (value : UInt32)
      (held : processor.memory.load (frame + offset.toNat) = value.toNat) :
      (Instruction.ldr .r0 .sp offset).execute middle = .ok (middle.set .r0 value) := by
    have position : (middle.registers .sp + offset).toNat = frame + offset.toNat := by
      rw [base, ← @UInt32.ofNat_toNat offset, place offset.toNat small, UInt32.ofNat_toNat]
    exact execute_ldr (by rw [position]; omega) (by rw [position, memory, held])
  let moved := processor.set .sp (processor.registers .r0)
  let withIp := (moved.set .r0 ip).set .ip ip
  let withLr := (withIp.set .r0 lr).set .lr lr
  let read := withLr.set .r0 xpsr
  refine ⟨{ read with xpsr := read.xpsr &&& 0x0fffffff ||| xpsr &&& 0xf0000000 }, ?_, rfl, there,
    rfl, rfl, flags_msr read.xpsr xpsr, ?_⟩
  · rw [@run_cons_ok _ _ processor moved rfl,
      run_cons_ok (loaded moved rfl rfl 0x10 (by decide) (by decide) ip atIp),
      @run_cons_ok _ _ (moved.set .r0 ip) withIp rfl, run_cons_ok
        (loaded withIp rfl rfl 0x14 (by decide) (by decide) lr atLr),
      @run_cons_ok _ _ (withIp.set .r0 lr) withLr rfl, run_cons_ok
        (loaded withLr rfl rfl 0x1c (by decide) (by decide) xpsr atXpsr)]
    rfl
  · simp only [List.forall_mem_cons]
    exact ⟨rfl, rfl, rfl, rfl, rfl, rfl, rfl, rfl, List.forall_mem_nil _⟩

/-- `r0` and `r1` are put where `ip` and `lr` were, so that they are popped once more before
`pc`. -/
theorem run_popFrame {frame : Nat} {w0 w1 w2 w3 ip lr pc xpsr : UInt32}
    (there : processor.address .sp = frame) (aligned : frame % 4 = 0)
    (room : frame + 32 < 2 ^ 32)
    (words : Words processor.memory frame [w0, w1, w2, w3, ip, lr, pc, xpsr]) :
    ∃ after, run [.pop [.r0, .r1, .r2, .r3], .str .r0 .sp 0, .str .r1 .sp 4, .pop [.r0, .r1],
      .popPc] processor =
        (if pc &&& 1 = 1 then .ok after else .error .notThumb) ∧
      after.memory = (processor.memory.store (frame + 16) w0.toNat).store (frame + 20) w1.toNat ∧
      after.address .sp = frame + 28 ∧
      [.r0, .r1, .r2, .r3].map after.registers = [w0, w1, w2, w3] ∧ after.pc = pc ∧
      after.xpsr = processor.xpsr ∧
      ∀ kept, kept ≠ .sp → kept ∉ [Register.r0, .r1, .r2, .r3] →
      after.registers kept = processor.registers kept := by
  obtain ⟨at0, at1, at2, at3, -, -, atPc, -, -⟩ := words
  have low : Words processor.memory (processor.address .sp) [w0, w1, w2, w3] :=
    there ▸ ⟨at0, at1, at2, at3, trivial⟩
  have space : processor.address .sp + 4 * [Register.r0, .r1, .r2, .r3].length < 2 ^ 32 := by
    rw [there, List.length_cons, List.length_cons, List.length_cons, List.length_singleton]
    omega
  obtain ⟨popped, first, memory, stack, -, status, held, kept⟩ :=
    execute_pop (by decide) (by decide) (there ▸ aligned) space rfl low
  rw [there] at stack
  simp only [List.map_cons, List.map_nil, List.cons.injEq, and_true] at held
  obtain ⟨held0, held1, held2, held3⟩ := held
  have at16 : popped.address .sp = frame + 16 := stack
  have place : (popped.registers .sp + 0).toNat = frame + 16 := by rw [UInt32.add_zero]; exact at16
  have above : (popped.registers .sp + 4).toNat = frame + 20 := by
    have small : (4 : UInt32).toNat = 4 := rfl
    rw [UInt32.toNat_add, small, ← Processor.address, at16, Nat.mod_eq_of_lt (by omega)]
  let stored := { popped with memory := popped.memory.store (frame + 16) w0.toNat }
  let twice := { stored with memory := stored.memory.store (frame + 20) w1.toNat }
  have second : (Instruction.str .r0 .sp 0).execute popped = .ok stored := by
    rw [execute_str (by rw [place]; omega), place, held0]
  have third : (Instruction.str .r1 .sp 4).execute stored = .ok twice := by
    have base : (stored.registers .sp + 4).toNat = frame + 20 := above
    have value : stored.registers .r1 = w1 := held1
    rw [execute_str (by rw [base]; omega), base, value]
  have again : Words twice.memory (twice.address .sp) [w0, w1] := by
    have bottom : twice.address .sp = frame + 16 := at16
    rw [bottom]
    refine ⟨?_, ?_, trivial⟩
    · exact (Memory.load_store_other _ (by omega)).trans ((Memory.load_store_same ..).trans (Nat.mod_eq_of_lt w0.toNat_lt))
    · exact (Memory.load_store_same ..).trans (Nat.mod_eq_of_lt w1.toNat_lt)
  have bottom : twice.address .sp = frame + 16 := at16
  have space : twice.address .sp + 4 * [Register.r0, .r1].length < 2 ^ 32 := by
    rw [bottom, List.length_cons, List.length_singleton]
    omega
  obtain ⟨last, fourth, lastMemory, lastStack, -, lastStatus, lastHeld, lastKept⟩ :=
    execute_pop (by decide) (by decide) (by rw [bottom]; omega) space rfl again
  rw [bottom] at lastStack
  have at24 : last.address .sp = frame + 24 := lastStack
  simp only [List.map_cons, List.map_nil, List.cons.injEq, and_true] at lastHeld
  have target : last.loadWord (last.address .sp) = .ok pc := by
    rw [at24]
    refine loadWord_ok (by omega) ?_
    rw [lastMemory]
    exact (Memory.load_store_other _ (by omega)).trans ((Memory.load_store_other _ (by omega)).trans ((congrArg (Memory.load · (frame + 24)) memory).trans atPc))
  refine ⟨{ last.set .sp (last.registers .sp + 4) with pc }, ?_, ?_, ?_, ?_, rfl, ?_, ?_⟩
  · have pops : Instruction.popPc.execute last = last.loadWord (last.address .sp) >>= fun value =>
        if value &&& 1 = 1 then .ok { last.set .sp (last.registers .sp + 4) with pc := value }
        else .error .notThumb := rfl
    rw [run_cons_ok first, run_cons_ok second, run_cons_ok third, run_cons_ok fourth,
      run_cons, pops, target]
    by_cases thumb : pc &&& 1 = 1
    · rw [if_pos thumb]
      exact congrArg (· >>= run []) (if_pos thumb)
    · rw [if_neg thumb]
      exact congrArg (· >>= run []) (if_neg thumb)
  · exact lastMemory.trans (congrArg (fun memory : Memory => (memory.store (frame + 16) w0.toNat).store (frame + 20) w1.toNat) memory)
  · have small : (4 : UInt32).toNat = 4 := rfl
    have top : (last.registers .sp + 4).toNat = frame + 28 := by
      rw [UInt32.toNat_add, small, ← Processor.address, at24, Nat.mod_eq_of_lt (by omega)]
    exact top
  · have kept2 := (lastKept .r2 (by decide) (by decide)).trans held2
    have kept3 := (lastKept .r3 (by decide) (by decide)).trans held3
    exact congr (congrArg List.cons lastHeld.1) (congr (congrArg List.cons lastHeld.2)
      (congr (congrArg List.cons kept2) (congrArg (List.cons · []) kept3)))
  · exact lastStatus.trans status
  · intro register stackless unlisted
    have other : register ∉ [Register.r0, .r1] :=
      fun member => unlisted (List.mem_append_left [Register.r2, Register.r3] member :)
    exact (Function.update_of_ne stackless ..).trans
      ((lastKept register stackless other).trans (kept register stackless unlisted))

/-- The thread goes on with its registers, but its stack pointer is one word below where a switch
would leave it, and two words of what was the frame are overwritten. -/
theorem restore_context_from_thread_mode {address : Nat} (there : processor.address .r0 = address)
    (aligned : address % 4 = 0)
    (room : address + 64 < 2 ^ 32) (popLink : UInt32) :
    ∃ after, run (restoreContextFromThreadMode popLink) processor =
        (if (FullRegisterContext.load processor.memory address).pc &&& 1 = 1 then .ok after else .error .notThumb) ∧
      { FullRegisterContext.current after with xpsr := (FullRegisterContext.load processor.memory address).xpsr } =
        FullRegisterContext.load processor.memory address ∧
      after.xpsr &&& 0xf0000000 = (FullRegisterContext.load processor.memory address).xpsr &&& 0xf0000000 ∧
      after.address .sp = address + 60 ∧
      after.memory = (processor.memory.store (address + 48) (FullRegisterContext.load processor.memory address).r0.toNat).store
        (address + 52) (FullRegisterContext.load processor.memory address).r1.toNat := by
  have words := FullRegisterContext.words_load processor.memory address
  have split : (FullRegisterContext.load processor.memory address).words =
      (FullRegisterContext.load processor.memory address).words.take 8 ++
        (FullRegisterContext.load processor.memory address).words.drop 8 :=
    (List.take_append_drop ..).symm
  rw [split, words_append] at words
  obtain ⟨popped, pops, popMemory, base, held⟩ :=
    restoreContextFromThreadMode_pops (there ▸ aligned) (by omega)
      (rfl : ((FullRegisterContext.load processor.memory address).words.take 8).length = 8)
        (there ▸ words.1) popLink
  rw [there] at base
  generalize FullRegisterContext.load processor.memory address = context at *
  have frame : Words popped.memory (address + 32) [context.r0, context.r1, context.r2, context.r3,
    context.ip, context.lr, context.pc, context.xpsr] :=
    popMemory ▸ words.2
  obtain ⟨read, reads, readMemory, readStack, ip, lr, flags, kept⟩ :=
    run_readFrame base (by omega) (by omega) frame
  obtain ⟨last, restores, lastMemory, lastStack, low, pc, status, others⟩ :=
    run_popFrame readStack (by omega) (by omega) (readMemory ▸ frame)
  refine ⟨last, ?_, ?_, ?_, ?_, ?_⟩
  · rw [restoreContextFromThreadMode, run_append_ok pops]
    exact (run_append_ok reads).trans restores
  · have others_apart : ∀ register ∈ [Register.r11, .r10, .r9, .r8, .r7, .r6, .r5, .r4],
        register ≠ .sp ∧ register ∉ [Register.r0, .r1, .r2, .r3] := by decide
    have high : [.r11, .r10, .r9, .r8, .r7, .r6, .r5, .r4].map last.registers =
      context.words.take 8 := by
      rw [← held]
      exact List.map_congr_left fun register member =>
        (others register (others_apart register member).1 (others_apart register member).2).trans
          (kept register member)
    have whole : ({ FullRegisterContext.current last with xpsr := context.xpsr }).words =
        [.r11, .r10, .r9, .r8, .r7, .r6, .r5, .r4].map last.registers ++
          ([.r0, .r1, .r2, .r3].map last.registers ++ [last.registers .ip, last.registers .lr,
            last.pc, context.xpsr]) := rfl
    apply words_injective
    rw [whole, high, low, others .ip (by decide) (by decide), others .lr (by decide) (by decide), ip, lr, pc]
    rfl
  · rw [status, flags]
  · exact lastStack
  · rw [lastMemory, readMemory, popMemory]

def restoringProcessor : Processor := ⟨fun _ => 0x1000, 0, 0, fun _ => 1⟩

theorem restore_context_ones :
    ∃ after, run (restoreContextFromThreadMode 0) restoringProcessor = .ok after ∧
    after.address .sp = 0x103c := by
  obtain ⟨after, ran, -, -, stack, -⟩ :=
    @restore_context_from_thread_mode restoringProcessor 0x1000 rfl rfl (by decide) 0
  exact ⟨after, ran.trans (if_pos rfl), stack⟩

end

end PicoOs.Kernel
