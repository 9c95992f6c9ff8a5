import PicoOs.Proofs.ConsoleInput

/-! What one call of `UART::read` takes out of the buffer when no byte arrives meanwhile. The
condition of its loop asks again how many bytes are there, after the loop has taken some, so
that it stops half-way. -/

namespace PicoOs.Kernel.UART
open Library
variable {uart : UART} {size : Nat}

def finishRead : Nat → UART → Except UARTFault UART
  | 0, uart => .ok uart
  | steps + 1, uart =>
    match uart.reading with
    | none => .ok uart
    | some reading => do
      let after ← uart.advance reading
      finishRead steps after

def readCall (uart : UART) (size : Nat) : Except UARTFault UART :=
  finishRead (3 * size + 2) { uart with reading := some ⟨.assertion, size, []⟩ }

def written (uart : UART) : Nat := uart.arrived.length % bufferSize

def unread (uart : UART) : List UInt8 :=
  uart.memory.window (uart.inputBuffer + uart.inputBufferConsumeOffset)
    (uart.written - uart.inputBufferConsumeOffset)

/-- The call returns as many unread bytes as fit, and leaves the others. -/
def Drains (uart : UART) (size : Nat) : Prop :=
  ∃ after, uart.readCall size = .ok after ∧ after.reading = none ∧
    after.returned = uart.returned ++ uart.unread.take (min uart.unread.length size) ∧
    after.unread = uart.unread.drop (min uart.unread.length size)

def half (uart : UART) (size : Nat) : Nat := min ((uart.unread.length + 1) / 2) size

theorem length_unread (uart : UART) :
    uart.unread.length = uart.written - uart.inputBufferConsumeOffset :=
  Memory.window_length _ _ _

private theorem finishRead_done (steps : Nat) (idle : uart.reading = none) :
    finishRead steps uart = .ok uart := by
  cases steps with
  | zero => rfl
  | succ steps => simp only [finishRead, idle]

theorem written_lt (uart : UART) : uart.written < bufferSize := Nat.mod_lt _ (by decide)

theorem finishRead_step {reading : Reading} {after : UART} (running : uart.reading = some reading)
    (advanced : uart.advance reading = .ok after) (steps : Nat) :
    finishRead (steps + 1) uart = finishRead steps after := by
  simp only [finishRead, running, advanced, bind, Except.bind]

section
variable {bytes : List UInt8} (reading : uart.reading = some ⟨.assertion, size, bytes⟩)
  (ordered : uart.inputBufferConsumeOffset ≤ uart.written)
include reading ordered

theorem finishRead_asserts (steps : Nat) :
    finishRead (steps + 1) uart = finishRead steps { uart with reading := some ⟨.subtraction,
      size, bytes⟩ } := by
  refine finishRead_step reading ?_ steps
  simp only [advance, avaliable, bind, Except.bind]
  exact if_pos ordered

omit reading in
theorem minus_written :
    minus (uart.arrived.length % bufferSize) uart.inputBufferConsumeOffset =
      uart.written - uart.inputBufferConsumeOffset := by
  have below := uart.written_lt
  exact minus_of_le (by unfold written bufferSize at *; omega) ordered

private theorem finishRead_stops
    (stops : ¬bytes.length < min (uart.written - uart.inputBufferConsumeOffset) size)
    (steps : Nat) :
    finishRead (steps + 2) uart = .ok { uart with reading := none, returned := uart.returned ++ bytes } := by
  rw [finishRead_asserts reading ordered]
  refine (finishRead_step rfl ?_ steps).trans (finishRead_done steps rfl)
  rw [← minus_written ordered] at stops
  simp only [advance, avaliable, bind, Except.bind]
  exact if_neg stops

private theorem finishRead_takes
    (continues : bytes.length < min (uart.written - uart.inputBufferConsumeOffset) size)
    (steps : Nat) :
    finishRead (steps + 3) uart = finishRead steps { uart with
      consumeOffsetRaw := wrap (uart.consumeOffsetRaw + 1)
      reading := some ⟨.assertion, size,
        bytes ++ [uart.memory (uart.inputBuffer + uart.inputBufferConsumeOffset)]⟩ } := by
  rw [← minus_written ordered] at continues
  have passes : advance { uart with reading := some ⟨.subtraction, size, bytes⟩ }
    ⟨.subtraction, size, bytes⟩ =
      .ok { uart with reading := some ⟨.body, size, bytes⟩ } := by
    simp only [advance, avaliable, bind, Except.bind]
    exact if_pos continues
  rw [finishRead_asserts reading ordered, finishRead_step rfl passes]
  exact finishRead_step rfl rfl steps

end

/-- The rounds that are left, from a state in which some bytes have been taken. -/
theorem finishRead_spec (ordered : uart.inputBufferConsumeOffset ≤ uart.written)
    {left taken steps raw : Nat}
    (rounds : taken + left = uart.half size)
    (offset : raw % bufferSize = uart.inputBufferConsumeOffset + taken)
    (enough : 3 * left + 2 ≤ steps) :
    ∃ final, finishRead steps { uart with
        consumeOffsetRaw := raw, reading := some ⟨.assertion, size, uart.unread.take taken⟩ } =
      .ok { uart with
        consumeOffsetRaw := final, reading := none, returned := uart.returned ++
          uart.unread.take (uart.half size) } ∧
      final % bufferSize = uart.inputBufferConsumeOffset + uart.half size := by
  have length := uart.length_unread
  have below := uart.written_lt
  have limit : uart.half size = min ((uart.unread.length + 1) / 2) size := rfl
  have stored : (uart.unread.take taken).length = taken := by
    rw [List.length_take]
    omega
  obtain ⟨more, rfl⟩ := Nat.exists_eq_add_of_le enough
  induction left generalizing taken raw with
  | zero =>
    obtain rfl : taken = uart.half size := rounds
    rw [show 3 * 0 + 2 + more = more + 2 by omega]
    refine ⟨raw, finishRead_stops rfl ?_ ?_ more, offset⟩
    · change raw % bufferSize ≤ uart.written
      omega
    · change ¬(uart.unread.take (uart.half size)).length < min (uart.written - raw % bufferSize) size
      omega
  | succ left ih =>
    have inside : taken < uart.unread.length := by omega
    have byte : uart.memory (uart.inputBuffer + raw % bufferSize) = uart.unread[taken] := by
      simp only [unread, Memory.window, List.getElem_map, List.getElem_range]
      rw [offset, Nat.add_assoc]
    have next : wrap (raw + 1) % bufferSize = uart.inputBufferConsumeOffset + (taken + 1) := by
      unfold wrap bufferSize at *
      omega
    have grown : uart.unread.take taken ++ [uart.unread[taken]] = uart.unread.take (taken + 1) :=
      List.take_concat_get' _ _ inside
    obtain ⟨final, finishes, ends⟩ :=
      ih (by omega) next (by rw [List.length_take]; omega) (by omega)
    rw [← grown, ← byte] at finishes
    rw [show 3 * (left + 1) + 2 + more = 3 * left + 2 + more + 3 by omega]
    refine ⟨final, (finishRead_takes rfl ?_ ?_ _).trans finishes, ends⟩
    · change raw % bufferSize ≤ uart.written
      omega
    · change (uart.unread.take taken).length < min (uart.written - raw % bufferSize) size
      omega

theorem readCall_half (uart : UART) (size : Nat)
    (ordered : uart.inputBufferConsumeOffset ≤ uart.written) :
    ∃ after, uart.readCall size = .ok after ∧ after.reading = none ∧
      after.returned = uart.returned ++ uart.unread.take (uart.half size) ∧
      after.unread = uart.unread.drop (uart.half size) := by
  have within : uart.half size ≤ size := min_le_right _ _
  have inside : uart.half size ≤ uart.unread.length := by
    unfold half
    omega
  obtain ⟨final, finishes, offset⟩ :=
    @finishRead_spec uart size ordered (uart.half size) 0 (3 * size + 2) uart.consumeOffsetRaw
    (Nat.zero_add _) rfl (by omega)
  refine ⟨_, finishes, rfl, rfl, ?_⟩
  rw [length_unread] at inside
  change uart.memory.window (uart.inputBuffer + final % bufferSize)
    (uart.written - final % bufferSize) = _
  rw [offset, unread, Memory.window_drop _ _ inside, Nat.add_assoc, Nat.sub_add_eq]

/-- A call takes all that it could exactly if there is at most one byte, or the destination is no
larger than half of them. -/
theorem read_drains_iff (ordered : uart.inputBufferConsumeOffset ≤ uart.written) :
    uart.Drains size ↔ uart.unread.length ≤ 1 ∨ size ≤ (uart.unread.length + 1) / 2 := by
  obtain ⟨after, called, idle, returned, left⟩ := uart.readCall_half size ordered
  have same : uart.Drains size ↔ uart.half size = min uart.unread.length size := by
    constructor
    · rintro ⟨other, also, -, gives, -⟩
      obtain rfl := Except.ok.inj (called.symm.trans also)
      have lengths := congrArg List.length (List.append_cancel_left (returned.symm.trans gives))
      simp only [List.length_take] at lengths
      unfold half at lengths ⊢
      omega
    · intro equal
      exact ⟨after, called, idle, equal ▸ returned, equal ▸ left⟩
  rw [same, half]
  omega

def typed (count : Nat) : UART :=
  { UART.initial 0x20000400 fun _ => 65 with arrived := List.replicate count 65 }

/-- One byte is there, or a call asks for three of five. -/
theorem read_drains_iff_letters : (typed 1).Drains 4 ∧ (typed 5).Drains 3 :=
  ⟨(read_drains_iff (by decide)).mpr (Or.inl (by decide)), (read_drains_iff (by decide)).mpr (Or.inr (by decide))⟩

/-- Of two bytes that wait one is returned. -/
theorem read_stops : (typed 2).inputBufferConsumeOffset ≤ (typed 2).written ∧
    (typed 2).unread.length = 2 ∧ ¬(typed 2).Drains 4 := by
  refine ⟨by decide, by decide, ?_⟩
  rintro ⟨after, called, -, returned, -⟩
  obtain ⟨other, also, -, gives, -⟩ := (typed 2).readCall_half 4 (by decide)
  obtain rfl := Except.ok.inj (called.symm.trans also)
  have lengths := congrArg List.length (returned.symm.trans gives)
  revert lengths
  decide

end PicoOs.Kernel.UART
