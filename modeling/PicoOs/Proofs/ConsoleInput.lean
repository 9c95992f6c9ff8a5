import PicoOs.Kernel.UART

/-! What calls of `UART::read` take out of the buffer is what has arrived, in order. The
assertion holds as long as the DMA and the reader are in the same pass through the buffer. -/

namespace PicoOs.Kernel.UART
open Library
variable {uart next : UART} {event : UARTEvent} {reading : Reading}

/-- The next byte to arrive and the next byte to be read are in the same pass. -/
def SamePass (uart : UART) : Prop :=
  uart.arrived.length / bufferSize = uart.taken.length / bufferSize

/-- A step that evaluates the assertion is taken in the same pass. -/
def Safe (uart : UART) (event : UARTEvent) : Prop :=
  event = .step → uart.reading.map Reading.point = some .assertion → uart.SamePass

structure Fifo (uart : UART) : Prop where
  ordered : uart.taken <+: uart.arrived
  offset : uart.consumeOffsetRaw = wrap uart.taken.length
  unread : uart.arrived.length ≤ uart.taken.length + 1023
  stored : ∀ index, uart.taken.length ≤ index → ∀ below : index < uart.arrived.length,
    uart.memory (uart.inputBuffer + index % bufferSize) = uart.arrived[index]
  left : uart.reading.map Reading.point = some .body → uart.taken.length < uart.arrived.length

theorem avaliable (uart : UART) :
    uart.inputBufferAvaliableOffset = .ok (uart.arrived.length % bufferSize) := by
  unfold inputBufferAvaliableOffset writeAddr
  rw [if_pos (Nat.le_add_right _ _), Nat.add_sub_cancel_left]

namespace Fifo

private theorem initial (inputBuffer : Nat) (memory : Memory) :
    (UART.initial inputBuffer memory).Fifo where
  ordered := List.prefix_refl _
  offset := rfl
  unread := Nat.zero_le _
  stored _ _ below := absurd below (Nat.not_lt_zero _)
  left := nofun

theorem consume (fifo : uart.Fifo) :
    uart.inputBufferConsumeOffset = uart.taken.length % bufferSize := by
  rw [inputBufferConsumeOffset, fifo.offset, wrap]
  exact Nat.mod_mod_of_dvd _ (by decide)

private theorem assertion (fifo : uart.Fifo) :
    uart.arrived.length % bufferSize ≥ uart.inputBufferConsumeOffset ↔ uart.SamePass := by
  have behind := fifo.ordered.length_le
  have near := fifo.unread
  rw [fifo.consume, SamePass, bufferSize]
  omega

private theorem empty (fifo : uart.Fifo)
    (zero : minus (uart.arrived.length % bufferSize) uart.inputBufferConsumeOffset = 0) :
    uart.arrived.length = uart.taken.length := by
  have behind := fifo.ordered.length_le
  have near := fifo.unread
  rw [fifo.consume, bufferSize, minus] at zero
  omega

private theorem arrive (fifo : uart.Fifo) {byte : UInt8}
    (room : uart.arrived.length < uart.taken.length + 1023)
    (executed : uart.execute (.arrive byte) = .ok next) : next.Fifo := by
  have behind := fifo.ordered.length_le
  cases executed
  refine ⟨fifo.ordered.trans (List.prefix_append _ _), fifo.offset, ?_, fun index above below => ?_,
    fun body => ?_⟩
  · rw [List.length_append, List.length_singleton]
    exact room
  · simp only [List.length_append, List.length_singleton] at below
    by_cases last : index = uart.arrived.length
    · subst last
      rw [List.getElem_concat_length rfl]
      exact if_pos rfl
    · have earlier : index < uart.arrived.length := by omega
      have apart : uart.inputBuffer + index % bufferSize ≠ uart.writeAddr := by
        have lower : uart.taken.length ≤ index := above
        rw [writeAddr, bufferSize]
        omega
      rw [List.getElem_append_left earlier, ← fifo.stored index above earlier]
      exact if_neg apart
  · have before := fifo.left body
    exact Nat.lt_of_lt_of_le before (by simp)

private theorem read (fifo : uart.Fifo) {size : Nat} (idle : uart.reading = none)
    (executed : uart.execute (.read size) = .ok next) :
    next.Fifo := by
  cases executed
  have same : UART.taken { uart with reading := some ⟨.assertion, size, []⟩ } = uart.taken := by
    simp only [taken, idle, Option.elim_some, Option.elim_none]
  exact ⟨same ▸ fifo.ordered, same ▸ fifo.offset, same ▸ fifo.unread, same ▸ fifo.stored, nofun⟩

private theorem go (fifo : uart.Fifo) (running : uart.reading = some reading) (point : ReadPoint)
    (left : point = .body → uart.taken.length < uart.arrived.length) :
    Fifo { uart with reading := some { reading with point } } := by
  have same : UART.taken { uart with reading := some { reading with point } } = uart.taken := by
    simp only [taken, running, Option.elim_some]
  refine ⟨same ▸ fifo.ordered, same ▸ fifo.offset, same ▸ fifo.unread, same ▸ fifo.stored,
    fun body => ?_⟩
  rw [same]
  exact left (Option.some.inj body)

private theorem finish (fifo : uart.Fifo) (running : uart.reading = some reading) :
    Fifo { uart with reading := none, returned := uart.returned ++ reading.bytes } := by
  have same : UART.taken { uart with reading := none, returned := uart.returned ++ reading.bytes } =
    uart.taken := by
    simp only [taken, running, Option.elim_some, Option.elim_none, List.append_nil]
  exact ⟨same ▸ fifo.ordered, same ▸ fifo.offset, same ▸ fifo.unread, same ▸ fifo.stored, nofun⟩

private theorem take (fifo : uart.Fifo) (running : uart.reading = some reading)
    (body : reading.point = .body)
    (advanced : uart.advance reading = .ok next) : next.Fifo := by
  have left : uart.taken.length < uart.arrived.length :=
    fifo.left (by rw [running, Option.map_some, body])
  have byte := fifo.stored uart.taken.length (Nat.le_refl _) left
  rw [← fifo.consume] at byte
  simp only [advance, body, byte] at advanced
  cases advanced
  have longer : UART.taken { uart with
      consumeOffsetRaw := wrap (uart.consumeOffsetRaw + 1)
      reading := some { reading with point := .assertion, bytes := reading.bytes ++ [uart.arrived[uart.taken.length]] } } =
      uart.taken ++ [uart.arrived[uart.taken.length]] := by
    simp only [taken, running, Option.elim_some, List.append_assoc]
  have length : (uart.taken ++ [uart.arrived[uart.taken.length]]).length = uart.taken.length + 1 :=
    by simp
  refine ⟨?_, ?_, ?_, ?_, nofun⟩
  · rw [longer]
    have more := List.take_append_getElem left
    rw [← List.prefix_iff_eq_take.mp fifo.ordered] at more
    rw [more]
    exact List.take_prefix _ _
  · rw [longer, length, fifo.offset, wrap, wrap, Nat.mod_add_mod]
    rfl
  · rw [longer, length]
    exact Nat.le_trans fifo.unread (by omega)
  · rw [longer, length]
    exact fun index above => fifo.stored index (Nat.le_of_succ_le above)

/-- A step of a call is taken if and only if it does not find the DMA in another pass. -/
theorem step (fifo : uart.Fifo) (running : uart.reading = some reading) :
    (∃ next, uart.execute .step = .ok next) ↔ uart.Safe .step := by
  have executes : uart.execute .step = uart.advance reading := by simp only [UART.execute, running]
  have safe : uart.Safe .step ↔ (reading.point = .assertion → uart.SamePass) := by
    simp only [Safe, running, Option.map_some, Option.some.injEq, forall_const]
  rw [executes, safe]
  cases point : reading.point with
  | assertion =>
    simp only [UART.advance, point, avaliable, bind, Except.bind, forall_const]
    split
    next same => exact iff_of_true ⟨_, rfl⟩ (fifo.assertion.mp same)
    next other => exact iff_of_false nofun (mt fifo.assertion.mpr other)
  | subtraction =>
    simp only [UART.advance, point, avaliable, bind, Except.bind]
    refine iff_of_true ?_ nofun
    split <;> exact ⟨_, rfl⟩
  | body =>
    simp only [UART.advance, point]
    exact iff_of_true ⟨_, rfl⟩ nofun

private theorem advance (fifo : uart.Fifo) (running : uart.reading = some reading)
    (advanced : uart.advance reading = .ok next) :
    next.Fifo := by
  cases point : reading.point with
  | assertion =>
    simp only [UART.advance, point, avaliable, bind, Except.bind] at advanced
    split at advanced
    next =>
      cases advanced
      exact fifo.go running _ nofun
    next => cases advanced
  | subtraction =>
    simp only [UART.advance, point, avaliable, bind, Except.bind] at advanced
    split at advanced
    next more =>
      cases advanced
      refine fifo.go running _ fun _ => Nat.lt_of_le_of_ne fifo.ordered.length_le fun same => ?_
      have zero : minus (uart.arrived.length % bufferSize) uart.inputBufferConsumeOffset = 0 := by
        rw [fifo.consume, same, minus, Nat.add_sub_cancel_left, Nat.mod_self]
      omega
    next =>
      cases advanced
      exact fifo.finish running
  | body => exact fifo.take running point advanced

private theorem execute (fifo : uart.Fifo) (permitted : uart.permitted event)
    (executed : uart.execute event = .ok next) : next.Fifo := by
  cases event with
  | arrive byte => exact fifo.arrive permitted executed
  | read size => exact fifo.read permitted executed
  | step =>
    obtain ⟨reading, running⟩ := Option.isSome_iff_exists.mp permitted
    simp only [UART.execute, running] at executed
    exact fifo.advance running executed

end Fifo

/-- However bytes arrive and calls read them, the calls take what has arrived, in order and
without a gap. A step fails if and only if it evaluates the assertion while the DMA is in a
later pass than the reader, and a call that wanted bytes returns without any only if none
were left. -/
theorem console_input_fifo {inputBuffer : Nat} {memory : Memory} {history : List (UART × UARTEvent)}
    (run : machine.Run (.initial inputBuffer memory) history uart) :
    uart.taken <+: uart.arrived ∧
      (∀ event, uart.permitted event → ((∃ next, uart.execute event = .ok next) ↔
        uart.Safe event)) ∧
      ∀ reading next, uart.reading = some reading → uart.execute .step = .ok next →
      next.reading = none →
        next.returned = uart.taken ∧
        (reading.bytes = [] → reading.size = 0 ∨ next.returned = uart.arrived) := by
  have fifo : uart.Fifo := Machine.Reachable.invariant Fifo (.initial inputBuffer memory)
    Fifo.execute ⟨history, run⟩
  refine ⟨fifo.ordered, fun event permitted => ?_, fun reading next running executed ended => ?_⟩
  · cases event with
    | arrive byte => exact iff_of_true ⟨_, rfl⟩ nofun
    | read size => exact iff_of_true ⟨_, rfl⟩ nofun
    | step =>
      obtain ⟨reading, running⟩ := Option.isSome_iff_exists.mp permitted
      exact fifo.step running
  · simp only [UART.execute, running] at executed
    cases point : reading.point with
    | subtraction =>
      simp only [UART.advance, point, avaliable, bind, Except.bind] at executed
      split at executed
      next =>
        cases executed
        cases ended
      next enough =>
        cases executed
        have whole : uart.taken = uart.returned ++ reading.bytes := by
          rw [taken, running, Option.elim_some]
        refine ⟨whole.symm, fun none => ?_⟩
        rw [none, List.length_nil] at enough
        obtain zero | wanted := Nat.eq_zero_or_pos reading.size
        · exact .inl zero
        · have size : minus (uart.arrived.length % bufferSize) uart.inputBufferConsumeOffset = 0 :=
            by omega
          exact .inr (whole ▸ fifo.ordered.eq_of_length (fifo.empty size).symm)
    | assertion =>
      simp only [UART.advance, point, avaliable, bind, Except.bind] at executed
      split at executed
      next =>
        cases executed
        cases ended
      next => cases executed
    | body =>
      simp only [UART.advance, point] at executed
      cases executed
      cases ended

theorem console_input_fifo_two :
    ∃ uart, machine.after (.initial 0x20000400 fun _ => 0) [.arrive 7, .read 8, .step, .arrive 9,
      .step, .step] = some uart ∧
      uart.taken <+: uart.arrived ∧
      (∀ event, uart.permitted event → ((∃ next, uart.execute event = .ok next) ↔
        uart.Safe event)) ∧
      ∀ reading next, uart.reading = some reading → uart.execute .step = .ok next →
      next.reading = none →
        next.returned = uart.taken ∧
        (reading.bytes = [] → reading.size = 0 ∨ next.returned = uart.arrived) := by
  have finished : (machine.after (.initial 0x20000400 fun _ => 0)
      [.arrive 7, .read 8, .step, .arrive 9, .step, .step]).isSome := by decide
  obtain ⟨uart, played⟩ := Option.isSome_iff_exists.mp finished
  obtain ⟨history, run⟩ := Machine.reachable_after played
  exact ⟨uart, played, console_input_fifo run⟩

private theorem arrivals (inputBuffer : Nat) (memory : Memory) (byte : UInt8) {count : Nat}
    (few : count ≤ 1023) :
    ∃ history now arrived, arrived.length = count ∧
      machine.Run (.initial inputBuffer memory) history ⟨inputBuffer, now, 0, none,
        arrived, []⟩ := by
  induction count with
  | zero => exact ⟨[], memory, [], rfl, .start⟩
  | succ count ih =>
    obtain ⟨history, now, arrived, length, run⟩ := ih (by omega)
    have room : machine.permitted ⟨inputBuffer, now, 0, none, arrived, []⟩ (.arrive byte) := by
      have below : arrived.length < 0 + 1023 := length ▸ (Nat.zero_add 1023).symm ▸ few
      exact below
    exact ⟨_, _, arrived ++ [byte], by rw [List.length_append, length]; rfl, run.step room rfl⟩

/-- With 1023 bytes unread, the assertion fails as soon as the DMA is at the start of the
buffer again. -/
theorem console_input_wraps :
    ∃ history uart, machine.Run (.initial 0x20000400 fun _ => 0) history uart ∧
    uart.permitted .step ∧
      uart.execute .step = .error .fixmeAssert := by
  obtain ⟨history, memory, arrived, length, run⟩ :=
    arrivals 0x20000400 (fun _ => 0) 0 (Nat.le_refl 1023)
  have played : machine.after ⟨0x20000400, memory, 0, none, arrived, []⟩
    [.read 2, .step, .step, .step, .arrive 0] =
      some ⟨0x20000400, memory.write 0x200007ff 0, 1, some ⟨.assertion, 2, [memory 0x20000400]⟩,
        arrived ++ [0], []⟩ := by
    simp [Machine.after, machine, permitted, execute, advance, avaliable, inputBufferConsumeOffset,
      bufferSize, taken, minus,
      writeAddr, wrap, length, bind, Except.bind]
  obtain ⟨more, run⟩ := run.extend played
  refine ⟨_, _, run, rfl, ?_⟩
  simp [execute, advance, avaliable, inputBufferConsumeOffset, bufferSize, length,
    bind, Except.bind]

end PicoOs.Kernel.UART
