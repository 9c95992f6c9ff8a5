import PicoOs.Kernel.FileSystem.FileHandles
import PicoOs.Proofs.ConsoleInput
import PicoOs.Library.Outcome

/-! When the loops of the console come to their end. What a read does depends on the offset
that the DMA shows each time it is asked, and a write on whether the UART is writable. -/

namespace PicoOs.Kernel.Console
open Library

section
variable (first : UART) (arrivals : Nat → List UInt8) (size : Nat)

def arrivedBy (step : Nat) : Nat :=
  first.arrived.length + ((List.range step).map fun earlier => (arrivals earlier).length).sum

def shown (step : Nat) : Nat := arrivedBy first arrivals (step + 1) % bufferSize

def consumed (taken : Nat) : Nat := (first.consumeOffsetRaw + taken) % bufferSize

def Passes (round taken : Nat) : Prop := consumed first taken ≤ shown first arrivals (3 * round + 1)
def Continues (round taken : Nat) : Prop :=
  taken < min (minus (shown first arrivals (3 * round + 2)) (consumed first taken)) size

/-- A call comes to its end: nothing is there for some rounds, then bytes are taken for some
rounds, and the assertion holds all the time. -/
def Delivers : Prop :=
  ∃ waits count, 0 < count ∧
    (∀ round < waits, Passes first arrivals round 0 ∧ ¬Continues first arrivals size round 0) ∧
    (∀ taken < count, Passes first arrivals (waits + taken) taken ∧
      Continues first arrivals size (waits + taken) taken) ∧
    Passes first arrivals (waits + count) count ∧
      ¬Continues first arrivals size (waits + count) count

/-- Where the call is in front of a step. -/
structure At (uart : UART) (step taken : Nat) : Prop where
  arrived : uart.arrived.length = arrivedBy first arrivals step
  offset : uart.inputBufferConsumeOffset = consumed first taken

end

variable {first uart : UART} {arrivals : Nat → List UInt8} {size step taken : Nat}
  {bytes : List UInt8}

private theorem receive_ok (uart : UART) (bytes : List UInt8) :
    ∃ after, uart.receive bytes = .ok after ∧
    after.arrived = uart.arrived ++ bytes ∧ after.consumeOffsetRaw = uart.consumeOffsetRaw ∧
    after.reading = uart.reading := by
  induction bytes generalizing uart with
  | nil => exact ⟨uart, rfl, (List.append_nil _).symm, rfl, rfl⟩
  | cons byte bytes ih =>
    obtain ⟨after, received, arrived, offset, reading⟩ :=
      ih { uart with memory := uart.memory.write uart.writeAddr byte, arrived := uart.arrived ++ [byte] }
    refine ⟨after, received, ?_, offset, reading⟩
    rw [arrived, List.append_assoc]
    rfl

private theorem arrivedBy_succ (first : UART) (arrivals : Nat → List UInt8) (step : Nat) :
    arrivedBy first arrivals (step + 1) = arrivedBy first arrivals step +
      (arrivals step).length := by
  simp only [arrivedBy, List.range_succ, List.map_append, List.sum_append, List.map_singleton,
    List.sum_singleton]
  exact (Nat.add_assoc ..).symm

theorem At.receive (place : At first arrivals uart step taken) :
    ∃ after, uart.receive (arrivals step) = .ok after ∧
    At first arrivals after (step + 1) taken ∧ after.reading = uart.reading ∧
    after.inputBufferAvaliableOffset = .ok (shown first arrivals step) := by
  obtain ⟨after, received, arrived, offset, reading⟩ := receive_ok uart (arrivals step)
  have total : after.arrived.length = arrivedBy first arrivals (step + 1) := by
    rw [arrived, List.length_append, place.arrived, arrivedBy_succ]
  refine ⟨after, received, ⟨total, ?_⟩, reading, ?_⟩
  · rw [UART.inputBufferConsumeOffset, offset]
    exact place.offset
  · rw [UART.avaliable, total]
    rfl

def GoesOn (arrivals : Nat → List UInt8) (size : Nat) (uart after : UART) (step : Nat) : Prop :=
  ∀ rounds, Console.read arrivals size (rounds + 1) step uart =
    Console.read arrivals size rounds (step + 1) after

theorem GoesOn.done {after : UART} {rounds : Nat} {value : List UInt8 × UART}
    (goesOn : GoesOn arrivals size uart after step)
    (done : Console.read arrivals size rounds step uart = .ok value) :
    ∃ rest, rest < rounds ∧ Console.read arrivals size rest (step + 1) after = .ok value := by
  cases rounds with
  | zero => cases done
  | succ rounds => exact ⟨rounds, Nat.lt_succ_self _, goesOn rounds ▸ done⟩

theorem GoesOn.ends {after : UART} (goesOn : GoesOn arrivals size uart after step)
    (ends : ∃ rounds value, Console.read arrivals size rounds (step + 1) after = .ok value) :
    ∃ rounds value, Console.read arrivals size rounds step uart = .ok value := by
  obtain ⟨rounds, value, done⟩ := ends
  exact ⟨rounds + 1, value, (goesOn rounds).trans done⟩

/-- The UART is idle again when a read has returned. -/
theorem read_idle {rounds : Nat} {value : List UInt8 × UART}
    (done : Console.read arrivals size rounds step uart = .ok value) :
    value.2.reading = none := by
  induction rounds generalizing step uart with
  | zero => cases done
  | succ rounds ih =>
    rw [Console.read] at done
    obtain ⟨received, _, done⟩ := bind_ok.mp done
    split at done
    next => exact ih done
    next reading running =>
      obtain ⟨after, _, done⟩ := bind_ok.mp done
      split at done
      next returned =>
        cases Except.ok.inj done
        exact returned.1
      next => exact ih done

def accepted (writable : Nat → Bool) (poll polls : Nat) : Nat :=
  (List.range polls).countP fun later => writable (poll + later)

end PicoOs.Kernel.Console
