import PicoOs.Proofs.FileOffsets

/-! Where a handle on a memory file finds what was written through it. The file appends the
bytes, while the handle moves on from where it stood. -/

namespace PicoOs.Kernel
open Library PicoOs.Std FileSystem KernelFiles

section Repetitions
variable {tail bytes : List UInt8}

def Repeats (tail bytes : List UInt8) : Prop :=
  ∀ index < bytes.length, bytes[index]? = tail[index % tail.length]?

private theorem Repeats.of_take (positive : 0 < tail.length)
    (same : (tail ++ bytes).take bytes.length = bytes) : Repeats tail bytes := by
  intro index
  induction index using Nat.strong_induction_on with
  | _ index ih =>
    intro inside
    have here : bytes[index]? = (tail ++ bytes)[index]? := by
      rw [← @List.getElem?_take_of_lt _ (tail ++ bytes) _ _ inside, same]
    rw [here]
    by_cases first : index < tail.length
    · rw [List.getElem?_append_left first, Nat.mod_eq_of_lt first]
    · have behind := Nat.le_of_not_lt first
      rw [List.getElem?_append_right behind, Nat.mod_eq_sub_mod behind]
      exact ih _ (by omega) (by omega)

private theorem Repeats.take (repeats : Repeats tail bytes) (positive : 0 < tail.length) :
    (tail ++ bytes).take bytes.length = bytes := by
  apply List.ext_getElem?
  intro index
  by_cases inside : index < bytes.length
  · rw [List.getElem?_take_of_lt inside, repeats index inside]
    by_cases first : index < tail.length
    · rw [List.getElem?_append_left first, Nat.mod_eq_of_lt first]
    · have behind := Nat.le_of_not_lt first
      rw [List.getElem?_append_right behind, repeats _ (by omega), Nat.mod_eq_sub_mod behind]
  · have outside := Nat.le_of_not_lt inside
    rw [List.getElem?_take_eq_none outside, List.getElem?_eq_none outside]

end Repetitions

section Writes
variable {fs : FileSystem} {file : FileRef} {data content bytes : List UInt8}
  {offset position : Nat}

/-- The bytes end at the new position, and what was in front of the old one is still there. -/
structure Lands (data content bytes : List UInt8) (offset position : Nat) : Prop where
  reaches : bytes.length ≤ position
  inside : position ≤ content.length
  ends : (content.take position).drop (position - bytes.length) = bytes
  keeps : content.take offset = data.take offset

/-- The write takes all of the bytes, the handle stands right behind them, and a read through it
goes on from there. -/
structure WriteVisible (fs : FileSystem) (surroundings : Surroundings) (file : FileRef)
    (offset : Nat) (bytes : List UInt8) : Prop where
  written : ∃ data content position after, (fs.files file).kind = .memoryFile data ∧
    fs.writeHandle surroundings (.memoryFile file offset) bytes =
      .ok (bytes.length, .memoryFile file position, after) ∧
    (after.files file).kind = .memoryFile content ∧ Lands data content bytes offset position ∧
    ∀ uart later count, ∃ further, after.readHandle uart later (.memoryFile file position) count =
      .ok (((content.drop position).take count).length,
        .bytes ((content.drop position).take count), further, uart)

private theorem lands_iff (inside : offset ≤ data.length) :
    Lands data (data ++ bytes) bytes offset (offset + bytes.length) ↔
    offset = data.length ∨ Repeats (data.drop offset) bytes := by
  have there : ((data ++ bytes).take (offset + bytes.length)).drop
    (offset + bytes.length - bytes.length) =
      (data.drop offset ++ bytes).take bytes.length := by
    rw [Nat.add_sub_cancel, List.drop_take, Nat.add_sub_cancel_left,
      List.drop_append_of_le_length inside]
  have length : (data.drop offset).length = data.length - offset := List.length_drop
  constructor
  · intro lands
    have same := there.symm.trans lands.ends
    by_cases atEnd : offset = data.length
    · exact .inl atEnd
    · exact .inr (Repeats.of_take (by omega) same)
  · intro fine
    refine ⟨Nat.le_add_left _ _, ?_, there.trans ?_, List.take_append_of_le_length inside⟩
    · rw [List.length_append]
      exact Nat.add_le_add_right inside _
    · by_cases atEnd : offset = data.length
      · rw [atEnd, List.drop_length, List.nil_append, List.take_length]
      · exact (fine.resolve_left atEnd).take (by omega)

theorem writeHandle_content (isMemory : (fs.files file).kind = .memoryFile data)
    (bytes : List UInt8) :
    ((fs.modify file ((fs.files file).append bytes)).files file).kind =
      .memoryFile (data ++ bytes) := by
  rw [modify_same, VirtualFile.append, isMemory]

theorem WriteVisible.lands {surroundings : Surroundings}
    (visible : WriteVisible fs surroundings file offset bytes)
    (isMemory : (fs.files file).kind = .memoryFile data) :
    Lands data (data ++ bytes) bytes offset (offset + bytes.length) := by
  obtain ⟨other, found, position, after, still, written, holds, lands, _⟩ := visible
  rw [isMemory] at still
  cases still
  rw [writeHandle, Except.ok.injEq] at written
  cases written
  rw [writeHandle_content isMemory] at holds
  cases holds
  exact lands

/-- A write is found in front of the handle exactly if the handle was at the end, or the bytes
repeat what was behind it. -/
theorem write_visible_iff (isMemory : (fs.files file).kind = .memoryFile data)
    (inside : offset ≤ data.length)
    (surroundings : Surroundings) (bytes : List UInt8) :
    WriteVisible fs surroundings file offset bytes ↔
    offset = data.length ∨ Repeats (data.drop offset) bytes := by
  rw [← lands_iff inside]
  constructor
  · intro visible
    exact visible.lands isMemory
  · intro lands
    have content := writeHandle_content isMemory bytes
    refine ⟨data, data ++ bytes, _, _, isMemory, rfl, content, lands, ?_⟩
    intro uart _ count
    simp only [readHandle, content, readData, slice, require, lands.inside, if_true,
      bind, Except.bind]
    exact ⟨_, rfl⟩

/-- Two bytes behind the two that are already there. -/
theorem write_visible_iff_end :
    let fs := consoleFileSystem.newMemoryFile.modify 1 ((consoleFileSystem.newMemoryFile.files 1).append [1, 2])
    WriteVisible fs ⟨fun _ => [], fun _ => true, 0, 1⟩ 1 2 [3, 4] ↔
      2 = [(1 : UInt8), 2].length ∨ Repeats ([(1 : UInt8), 2].drop 2) [3, 4] :=
  write_visible_iff rfl (by decide) _ _

def VirtualFile.memoryData (file : VirtualFile) : Option (List UInt8) :=
  match file.kind with
  | .memoryFile data => some data
  | _ => none

private theorem VirtualFile.memoryData_eq {file : VirtualFile}
    (holds : file.memoryData = some data) : file.kind = .memoryFile data := by
  unfold VirtualFile.memoryData at holds
  split at holds
  next kind => rw [kind, Option.some.inj holds]
  next => cases holds

/-- The first byte of a file that has just been opened is not the one that is written through the
handle. -/
theorem write_behind_end : ∃ start kernel, boot shellFlash 4096 1
    (.initial 0 fun _ => 0) = .ok start ∧
    machine.Reachable start kernel ∧
    (kernel.processes 0).handles.getOpt 3 = some (.memoryFile 6 0) ∧
    ¬ WriteVisible kernel.fileSystem ⟨fun _ => [], fun _ => true, 0, 1⟩ 6 0 [88] := by
  have played : ((boot shellFlash 4096 1 (.initial 0 fun _ => 0)).toOption.bind fun start =>
      (machine.after start [.quiet 0 (.open (literal "/example.txt") 0 0)]).map fun kernel =>
        ((kernel.processes 0).handles.getOpt 3, (kernel.fileSystem.files 6).memoryData)) =
      some (some (.memoryFile 6 0), some (literal "Hello, world!\n")) := by decide +kernel
  obtain ⟨start, booted, rest⟩ := Option.bind_eq_some_iff.mp played
  obtain ⟨kernel, ran, facts⟩ := Option.map_eq_some_iff.mp rest
  obtain ⟨held, content⟩ := Prod.mk.inj facts
  refine ⟨start, kernel, toOption_some.mp booted, Machine.reachable_after ran, held, ?_⟩
  intro visible
  have lands := visible.lands (VirtualFile.memoryData_eq content)
  exact absurd lands.ends (by decide)

end Writes
end PicoOs.Kernel
