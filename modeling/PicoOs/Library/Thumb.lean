import PicoOs.Library.Memory

/-! Straight-line Thumb code of the Cortex-M0+, and how the processor enters an exception and
returns from it. `sp` is the stack pointer of the thread; handlers have one of their own, which
no instruction here uses. -/

namespace PicoOs.Library.Thumb

inductive Register where
  | r0
  | r1
  | r2
  | r3
  | r4
  | r5
  | r6
  | r7
  | r8
  | r9
  | r10
  | r11
  | ip
  | sp
  | lr
  deriving DecidableEq

structure Processor where
  registers : Register → UInt32
  pc : UInt32
  xpsr : UInt32
  memory : Memory

/-- Words are only accessed at multiples of their size, and all code is Thumb code. -/
inductive Fault where
  | unaligned
  | notThumb
  deriving DecidableEq

inductive Instruction where
  | mov (destination source : Register)
  | adds (register : Register) (value : UInt32)
  | subs (register : Register) (value : UInt32)
  | ldr (destination base : Register) (offset : UInt32)
  | str (source base : Register) (offset : UInt32)
  | ldrLiteral (destination : Register) (value : UInt32)
  | mrsPsp (destination : Register)
  | msrPsp (source : Register)
  | msrApsr (source : Register)
  | pop (registers : List Register)
  | popPc
  | bl (link : UInt32)
  | isb
  deriving DecidableEq

namespace Processor

def set (processor : Processor) (register : Register) (value : UInt32) : Processor :=
  { processor with registers := Function.update processor.registers register value }

def address (processor : Processor) (register : Register) : Nat :=
  (processor.registers register).toNat

def loadWord (processor : Processor) (address : Nat) : Except Fault UInt32 :=
  if address % 4 = 0 then .ok (.ofNat (processor.memory.load address)) else .error .unaligned

def storeWord (processor : Processor) (address : Nat) (value : UInt32) : Except Fault Processor :=
  if address % 4 = 0 then
    .ok { processor with memory := processor.memory.store address value.toNat }
  else .error .unaligned

/-- The flags N, Z, C and V of a sum that is computed without wrapping. -/
def setFlags (processor : Processor) (left right carry : UInt32) : Processor :=
  let sum := left.toNat + right.toNat + carry.toNat
  let result := UInt32.ofNat sum
  let flags : UInt32 := (if result ≥ 0x80000000 then 0x80000000 else 0) ||| (if result = 0 then 0x40000000 else 0) |||
    (if sum ≥ 2 ^ 32 then 0x20000000 else 0) |||
    (if (left ≥ 0x80000000) = (right ≥ 0x80000000) ∧
      (left ≥ 0x80000000) ≠ (result ≥ 0x80000000) then 0x10000000 else 0)
  { processor with xpsr := processor.xpsr &&& 0x0fffffff ||| flags }

end Processor

namespace Instruction

def execute (processor : Processor) : Instruction → Except Fault Processor
  | .mov destination source => .ok (processor.set destination (processor.registers source))
  | .adds register value =>
    .ok ((processor.setFlags (processor.registers register) value 0).set register (processor.registers register + value))
  | .subs register value =>
    .ok ((processor.setFlags (processor.registers register) (~~~value) 1).set register (processor.registers register - value))
  | .ldr destination base offset => do
    let value ← processor.loadWord (processor.registers base + offset).toNat
    .ok (processor.set destination value)
  | .str source base offset =>
      processor.storeWord (processor.registers base + offset).toNat (processor.registers source)
  | .ldrLiteral destination value => .ok (processor.set destination value)
  | .mrsPsp destination => .ok (processor.set destination (processor.registers .sp))
  | .msrPsp source => .ok (processor.set .sp (processor.registers source))
  | .msrApsr source =>
    .ok { processor with xpsr := processor.xpsr &&& 0x0fffffff ||| processor.registers source &&& 0xf0000000 }
  | .pop registers => registers.foldlM (fun processor register => do
    let value ← processor.loadWord (processor.address .sp)
    .ok ((processor.set register value).set .sp (processor.registers .sp + 4))) processor
  | .popPc => do
    let value ← processor.loadWord (processor.address .sp)
    if value &&& 1 = 1 then .ok { processor.set .sp (processor.registers .sp + 4) with pc := value }
    else .error .notThumb
  | .bl link => .ok (processor.set .lr link)
  | .isb => .ok processor

end Instruction

def run (instructions : List Instruction) (processor : Processor) : Except Fault Processor :=
  instructions.foldlM Instruction.execute processor

/-- The bit of a saved `xpsr` that tells if a word was left free above the frame. -/
def padded (xpsr : UInt32) : Nat := xpsr.toNat / 2 ^ 9 % 2

/-- A saved `xpsr` with this bit. -/
def withPadding (xpsr : UInt32) (padding : Nat) : UInt32 :=
  .ofNat (xpsr.toNat / 2 ^ 10 * 2 ^ 10 + padding * 2 ^ 9 + xpsr.toNat % 2 ^ 9)

namespace Processor

/-- The words that the processor saves when it takes an exception. -/
def frame (processor : Processor) : List UInt32 :=
  [processor.registers .r0, processor.registers .r1, processor.registers .r2,
    processor.registers .r3, processor.registers .ip,
    processor.registers .lr, processor.pc, withPadding processor.xpsr
      (processor.address .sp % 8 / 4)]

/-- Where it saves them: the frame is on a multiple of eight. -/
def frameAddress (processor : Processor) : Nat :=
  processor.address .sp - processor.address .sp % 8 - 32

end Processor

def storeWords (memory : Memory) (address : Nat) : List UInt32 → Memory
  | [] => memory
  | value :: values => storeWords (memory.store address value.toNat) (address + 4) values

/-- The handler with this number is entered, with the value in `lr` that leads back to the
thread. -/
def enterException (number : Nat) (processor : Processor) : Processor where
  registers := Function.update (Function.update processor.registers .sp (.ofNat processor.frameAddress)) .lr 0xfffffffd
  pc := processor.pc
  xpsr := .ofNat (processor.xpsr.toNat / 2 ^ 9 * 2 ^ 9 + number)
  memory := storeWords processor.memory processor.frameAddress processor.frame

/-- What the processor does when a handler branches to this value. -/
def returnFromException (processor : Processor) : Processor :=
  let word (index : Nat) : UInt32 :=
    .ofNat (processor.memory.load (processor.address .sp + 4 * index))
  { registers := fun
      | .r0 => word 0
      | .r1 => word 1
      | .r2 => word 2
      | .r3 => word 3
      | .ip => word 4
      | .lr => word 5
      | .sp => .ofNat (processor.address .sp + 32 + 4 * padded (word 7))
      | other => processor.registers other
    pc := word 6
    xpsr := withPadding (word 7) 0
    memory := processor.memory }

def pushWords (memory : Memory) (address : Nat) : List UInt32 → Memory
  | [] => memory
  | value :: values => pushWords (memory.store (address - 4) value.toNat) (address - 4) values

def Words (memory : Memory) (address : Nat) : List UInt32 → Prop
  | [] => True
  | value :: values => memory.load address = value.toNat ∧ Words memory (address + 4) values

section
variable {memory after : Memory} {address other : Nat} {values more : List UInt32} {value : UInt32}

theorem words_append : Words memory address (values ++ more) ↔
    Words memory address values ∧ Words memory (address + 4 * values.length) more := by
  induction values generalizing address with
  | nil => simp [Words]
  | cons value values ih =>
    have next : address + 4 + 4 * values.length = address + 4 * (value :: values).length := by
      rw [List.length_cons]
      omega
    rw [List.cons_append, Words, Words, ih, next, and_assoc]

theorem Words.agree (words : Words memory address values)
    (agree : memory.Agree after address (address + 4 * values.length)) :
    Words after address values := by
  induction values generalizing address with
  | nil => trivial
  | cons value values ih =>
    rw [List.length_cons] at agree
    exact ⟨(agree.load (Nat.le_refl _) (by omega)).trans words.1, ih words.2 (agree.mono (by omega) (by omega))⟩

theorem storeWords_agree {start stop : Nat}
    (apart : stop ≤ address ∨ address + 4 * values.length ≤ start) :
    memory.Agree (storeWords memory address values) start stop := by
  induction values generalizing memory address with
  | nil => exact fun _ _ _ => rfl
  | cons value values ih =>
    rw [List.length_cons] at apart
    exact (memory.store_agree (by omega)).trans (ih (by omega))

theorem words_storeWords : Words (storeWords memory address values) address values := by
  induction values generalizing memory address with
  | nil => trivial
  | cons value values ih =>
    refine ⟨?_, ih⟩
    have kept : (memory.store address value.toNat).Agree
      (storeWords memory address (value :: values)) address (address + 4) :=
      storeWords_agree (.inl (Nat.le_refl _))
    rw [kept.load (Nat.le_refl _) (Nat.le_refl _), Memory.load_store_same,
      Nat.mod_eq_of_lt value.toNat_lt]

theorem pushWords_agree {start stop : Nat} (room : 4 * values.length ≤ address)
    (apart : stop ≤ address - 4 * values.length ∨ address ≤ start) :
    memory.Agree (pushWords memory address values) start stop := by
  induction values generalizing memory address with
  | nil => exact fun _ _ _ => rfl
  | cons value values ih =>
    rw [List.length_cons] at room apart
    exact (memory.store_agree (by omega)).trans (ih (by omega) (by omega))

theorem words_pushWords (room : 4 * values.length ≤ address) :
    Words (pushWords memory address values) (address - 4 * values.length) values.reverse := by
  induction values generalizing memory address with
  | nil => trivial
  | cons value values ih =>
    rw [List.length_cons] at room
    have bottom : address - 4 * (value :: values).length = address - 4 - 4 * values.length := by
      rw [List.length_cons]
      omega
    have top : address - 4 - 4 * values.length + 4 * values.reverse.length = address - 4 := by
      rw [List.length_reverse]
      omega
    have kept : (memory.store (address - 4) value.toNat).Agree
      (pushWords memory address (value :: values)) (address - 4) (address - 4 + 4) :=
      pushWords_agree (by omega) (.inr (Nat.le_refl _))
    rw [List.reverse_cons, words_append, bottom, top]
    refine ⟨ih (by omega), ?_, trivial⟩
    rw [kept.load (Nat.le_refl _) (Nat.le_refl _), Memory.load_store_same,
      Nat.mod_eq_of_lt value.toNat_lt]

end

section
variable {processor : Processor} {address : Nat} {value : UInt32} {base register : Register}
  {offset : UInt32}

theorem loadWord_ok (aligned : address % 4 = 0)
    (there : processor.memory.load address = value.toNat) :
    processor.loadWord address = .ok value := by
  rw [Processor.loadWord, if_pos aligned, there, UInt32.ofNat_toNat]

theorem execute_ldr (aligned : (processor.registers base + offset).toNat % 4 = 0)
    (there : processor.memory.load (processor.registers base + offset).toNat = value.toNat) :
    (Instruction.ldr register base offset).execute processor =
      .ok (processor.set register value) := by
  have loaded : (Instruction.ldr register base offset).execute processor =
      processor.loadWord (processor.registers base + offset).toNat >>= fun value =>
        .ok (processor.set register value) := rfl
  rw [loaded, loadWord_ok aligned there]
  rfl

theorem execute_str (aligned : (processor.registers base + offset).toNat % 4 = 0) :
    (Instruction.str register base offset).execute processor =
      .ok { processor with memory := processor.memory.store (processor.registers base + offset).toNat (processor.registers register).toNat } :=
  if_pos aligned

end

theorem run_append {first last : List Instruction} {processor : Processor} :
    run (first ++ last) processor = run first processor >>= run last :=
  List.foldlM_append ..

theorem run_append_ok {first last : List Instruction} {processor middle : Processor}
    (ran : run first processor = .ok middle) :
    run (first ++ last) processor = run last middle := by
  rw [run_append, ran]
  rfl

theorem run_cons {instruction : Instruction} {instructions : List Instruction}
    {processor : Processor} :
    run (instruction :: instructions) processor = instruction.execute processor >>=
      run instructions :=
  List.foldlM_cons ..

theorem run_cons_ok {instruction : Instruction} {instructions : List Instruction}
    {processor middle : Processor}
    (ran : instruction.execute processor = .ok middle) :
    run (instruction :: instructions) processor = run instructions middle := by
  rw [run_cons, ran]
  rfl

/-- Registers are popped one after the other. -/
theorem execute_pop {registers : List Register} {processor : Processor} {values : List UInt32}
    (others : .sp ∉ registers)
    (distinct : registers.Nodup) (aligned : processor.address .sp % 4 = 0)
    (room : processor.address .sp + 4 * registers.length < 2 ^ 32)
    (same : values.length = registers.length)
    (there : Words processor.memory (processor.address .sp) values) :
    ∃ after, (Instruction.pop registers).execute processor = .ok after ∧
    after.memory = processor.memory ∧
      after.address .sp = processor.address .sp + 4 * registers.length ∧ after.pc = processor.pc ∧
      after.xpsr = processor.xpsr ∧
      registers.map after.registers = values ∧ ∀ kept, kept ≠ .sp → kept ∉ registers →
      after.registers kept = processor.registers kept := by
  induction registers generalizing processor values with
  | nil =>
    obtain rfl := List.length_eq_zero_iff.mp same
    exact ⟨processor, rfl, rfl, rfl, rfl, rfl, rfl, fun _ _ _ => rfl⟩
  | cons register registers ih =>
    obtain ⟨value, values, rfl⟩ := List.exists_cons_of_length_eq_add_one same
    rw [List.mem_cons, not_or] at others
    rw [List.nodup_cons] at distinct
    rw [List.length_cons] at room
    let middle := (processor.set register value).set .sp (processor.registers .sp + 4)
    have top : middle.address .sp = processor.address .sp + 4 := by
      have small : (4 : UInt32).toNat = 4 := rfl
      have held : middle.registers .sp = processor.registers .sp + 4 := rfl
      rw [Processor.address, held, UInt32.toNat_add, small, ← Processor.address,
        Nat.mod_eq_of_lt (by omega)]
    have next : Words middle.memory (middle.address .sp) values := top ▸ there.2
    obtain ⟨after, rest, memory, stack, pc, xpsr, held, kept⟩ :=
      @ih middle values others.2 distinct.2 (by omega) (by omega) (Nat.succ.inj same) next
    refine ⟨after, ?_, memory, ?_, pc, xpsr, ?_, ?_⟩
    · have steps : (Instruction.pop (register :: registers)).execute processor =
          (processor.loadWord (processor.address .sp) >>= fun value =>
            .ok ((processor.set register value).set .sp (processor.registers .sp + 4))) >>=
              fun processor =>
              (Instruction.pop registers).execute processor := rfl
      rw [steps, loadWord_ok aligned there.1]
      exact rest
    · rw [stack, top, List.length_cons]
      omega
    · have first : after.registers register = value := by
        rw [kept register (Ne.symm others.1) distinct.1]
        exact (Function.update_of_ne (Ne.symm others.1) ..).trans (Function.update_self ..)
      rw [List.map_cons, held, first]
    · intro other stackless unlisted
      rw [List.mem_cons, not_or] at unlisted
      rw [kept other stackless unlisted.2]
      exact (Function.update_of_ne stackless ..).trans (Function.update_of_ne unlisted.1 ..)

end PicoOs.Library.Thumb
