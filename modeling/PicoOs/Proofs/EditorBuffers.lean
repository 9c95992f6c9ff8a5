import PicoOs.Library.Lines
import PicoOs.Proofs.Memmove
import PicoOs.Userland.Editor

/-! The buffer of the editor. Both functions that change it move a number of bytes that is
not the length of the tail behind the place of the change: `buffer_append_at_offset` moves
too many, so that it leaves the buffer, and `buffer_delete_range` may move too few. -/

namespace PicoOs.Userland
open Library

/-- `memmove` of the user library copies as the editor expects. -/
theorem Store.memmove_memory (store : Store) {destination source count : Nat}
    (destinationFits : destination + count ≤ 2 ^ 32)
    (sourceFits : source + count ≤ 2 ^ 32) :
    (store.memmove destination source count).memory =
      aeabiMemmove store.memory destination source count :=
  (aeabiMemmove_eq store.memory destinationFits sourceFits).symm

namespace Buffer

def text (buf : Buffer) (memory : Memory) : List UInt8 := memory.window buf.data buf.used

def stop (buf : Buffer) : Nat := buf.data + buf.size

structure Placed (buf : Buffer) : Prop where
  room : buf.used ≤ buf.size
  word : buf.size < 2 ^ 32
  fits : buf.stop ≤ 2 ^ 32

theorem text_length (buf : Buffer) (memory : Memory) : (buf.text memory).length = buf.used :=
  Memory.window_length _ _ _

end Buffer

section Append
variable {store after : Store} {buf changed : Buffer} {offset data dataSize : Nat}

/-- The function returns whenever there is room, with everything it accessed. -/
theorem bufferAppendAtOffset_eq (placed : buf.Placed) (room : buf.used + dataSize ≤ buf.size) :
    bufferAppendAtOffset store buf offset data dataSize =
      .ok ((store.memmove (buf.data + offset + dataSize) (buf.data + offset) buf.used).memcpy (buf.data + offset) data dataSize,
        { buf with used := buf.used + dataSize }) := by
  have small : wrap (buf.used + dataSize) = buf.used + dataSize :=
    wrap_of_lt (Nat.lt_of_le_of_lt room placed.word)
  rw [bufferAppendAtOffset, small, if_pos room]

/-- As long as the moved bytes stay in the buffer the tail moves up and the data takes its place. -/
theorem inserted_text (room : offset + dataSize + buf.used ≤ buf.size) (inside : offset ≤ buf.used)
    (apart : dataSize = 0 ∨ data + dataSize ≤ buf.data ∨ buf.stop ≤ data) :
    (((store.memmove (buf.data + offset + dataSize) (buf.data + offset) buf.used).memcpy (buf.data + offset) data
        dataSize).memory).window buf.data (buf.used + dataSize) =
      (buf.text store.memory).take offset ++ store.memory.window data dataSize ++
        (buf.text store.memory).drop offset := by
  obtain ⟨tail, total⟩ := Nat.exists_eq_add_of_le inside
  unfold Buffer.stop at apart
  have parts : buf.used + dataSize = offset + dataSize + tail := by omega
  rw [parts, Memory.window_append, Memory.window_append]
  simp only [Store.memmove, Store.memcpy]
  congr 1
  · congr 1
    · rw [Buffer.text, Memory.window_take _ _ inside]
      refine Memory.Agree.window (Memory.Agree.trans (Memory.copy_agree _ (.inl ?_)) (Memory.copy_agree _ (.inl ?_)))
      · omega
      · exact Nat.le_refl _
    · rw [Memory.window_copy _ (Nat.le_refl _)]
      rcases apart with rfl | apart
      · rfl
      refine Memory.Agree.window (Memory.copy_agree _ ?_)
      omega
  · have rest : buf.used - offset = tail := by omega
    have moved : (store.memory.copy (buf.data + offset + dataSize) (buf.data + offset) buf.used).window
        (buf.data + (offset + dataSize)) tail = store.memory.window (buf.data + offset) tail := by
      rw [← Nat.add_assoc]
      exact Memory.window_copy _ (by omega)
    rw [Buffer.text, Memory.window_drop _ _ inside, rest, ← moved]
    refine Memory.Agree.window (Memory.copy_agree _ (.inr ?_))
    omega

end Append

section Lookup
variable {store : Store} {buf : Buffer} {lineno : Nat}

private theorem lineOffsetFrom_eq (memory : Memory) (data remaining lineno offset : Nat) :
    lineOffsetFrom memory data remaining lineno offset =
      (behind newline (memory.window (data + offset) remaining) lineno).map (· + offset) := by
  induction remaining generalizing lineno offset with
  | zero =>
    cases lineno with
    | zero => simp [lineOffsetFrom, behind]
    | succ lineno => simp [lineOffsetFrom, behind, Memory.window]
  | succ remaining ih =>
    have first : memory.window (data + offset) (remaining + 1) =
        memory (data + offset) :: memory.window (data + (offset + 1)) remaining := by
      rw [Nat.add_comm remaining 1, Memory.window_append]
      rfl
    cases lineno with
    | zero => simp [lineOffsetFrom, behind]
    | succ lineno =>
      rw [lineOffsetFrom, if_pos (Nat.succ_pos _), first, behind]
      simp only [Nat.succ_sub_one]
      split
      all_goals
        rw [ih, Option.map_map]
        congr 1
        funext value
        simp only [Function.comp]
        omega

namespace Buffer

def lines (buf : Buffer) (memory : Memory) : List (List UInt8) :=
  Library.lines newline (buf.text memory)

def lineStart (buf : Buffer) (memory : Memory) (lineno : Nat) : Nat :=
  blockStart (buf.lines memory) (lineno - 1)

end Buffer

/-- A lookup succeeds exactly for the numbers of the complete lines and of the one behind them. -/
theorem mustGetLineOffset_eq (store : Store) (buf : Buffer) (lineno : Nat) :
    mustGetLineOffset store buf lineno =
      if 1 ≤ lineno ∧ lineno ≤ (buf.lines store.memory).length + 1 then
        .ok (buf.lineStart store.memory lineno, store.read ⟨buf.data,
          buf.lineStart store.memory lineno⟩)
      else .error .assert := by
  have found : lineOffsetFrom store.memory buf.data buf.used (lineno - 1) 0 =
      if lineno - 1 ≤ (buf.lines store.memory).length then some (buf.lineStart store.memory lineno)
      else none := by
    rw [lineOffsetFrom_eq, Nat.add_zero]
    have here : store.memory.window buf.data buf.used = buf.text store.memory := rfl
    rw [here, behind_eq, ← Buffer.lines]
    by_cases inside : lineno - 1 ≤ (buf.lines store.memory).length
    · rw [if_pos inside, if_pos inside]
      rfl
    · rw [if_neg inside, if_neg inside]
      rfl
  unfold mustGetLineOffset bufferGetLineOffset
  by_cases positive : 1 ≤ lineno
  · rw [if_pos positive, found]
    by_cases inside : lineno ≤ (buf.lines store.memory).length + 1
    · rw [if_pos (by omega), if_pos ⟨positive, inside⟩]
      rfl
    · rw [if_neg (by omega), if_neg (fun both => inside both.2)]
      rfl
  · rw [if_neg positive, if_neg (fun both => positive both.1)]
    rfl

theorem mustGetLineOffset_there (positive : 1 ≤ lineno)
    (inside : lineno ≤ (buf.lines store.memory).length + 1) :
    mustGetLineOffset store buf lineno =
      .ok (buf.lineStart store.memory lineno, store.read ⟨buf.data,
        buf.lineStart store.memory lineno⟩) := by
  rw [mustGetLineOffset_eq, if_pos ⟨positive, inside⟩]

theorem mustGetLineOffset_ok {found : Nat × Store}
    (looked : mustGetLineOffset store buf lineno = .ok found) :
    1 ≤ lineno ∧ lineno ≤ (buf.lines store.memory).length + 1 ∧
      found = (buf.lineStart store.memory lineno, store.read ⟨buf.data,
        buf.lineStart store.memory lineno⟩) := by
  rw [mustGetLineOffset_eq] at looked
  split at looked
  next inside => exact ⟨inside.1, inside.2, (Except.ok.inj looked).symm⟩
  next => cases looked

theorem lineStart_le (buf : Buffer) (memory : Memory)
    (inside : lineno ≤ (buf.lines memory).length + 1) :
    buf.lineStart memory lineno ≤ buf.used := by
  have whole := congrArg List.length (lines_unfinished newline (buf.text memory))
  rw [List.length_append, buf.text_length] at whole
  have last := @blockStart_mono _ (buf.lines memory) (lineno - 1)
    (buf.lines memory).length (by omega)
  rw [blockStart_length] at last
  exact Nat.le_trans last (Nat.le_trans (Nat.le_add_right _ _) (Nat.le_of_eq whole))

/-- No line is empty, since each has its newline. -/
theorem lineStart_lt {memory : Memory} {other : Nat} (positive : 1 ≤ lineno) (less : lineno < other)
    (inside : other ≤ (buf.lines memory).length + 1) :
    buf.lineStart memory lineno < buf.lineStart memory other := by
  have there : lineno - 1 < (buf.lines memory).length := by omega
  have single := line_count (List.getElem_mem there)
  have some : 0 < ((buf.lines memory)[lineno - 1]).length :=
    Nat.lt_of_lt_of_le (Nat.lt_of_lt_of_eq Nat.zero_lt_one single.symm) List.count_le_length
  have next := block_before (List.getElem?_eq_getElem there) (show lineno - 1 < other - 1 by omega)
  exact Nat.lt_of_lt_of_le (Nat.lt_add_of_pos_right some) next

end Lookup

section Delete
variable {store after : Store} {buf changed : Buffer} {fromLine toLine first last : Nat}

def Repeats (period : Nat) (tail : List UInt8) : Prop :=
  tail.drop period = tail.take (tail.length - period)

instance (period : Nat) (tail : List UInt8) : Decidable (Repeats period tail) :=
  inferInstanceAs (Decidable (tail.drop period = tail.take (tail.length - period)))

/-- Where the function returns, with everything it accessed. -/
theorem bufferDeleteRange_eq (placed : buf.Placed) (positive : 1 ≤ fromLine)
    (order : fromLine ≤ toLine)
    (inside : toLine ≤ (buf.lines store.memory).length) (word : toLine + 1 < 2 ^ 32) :
    let fromOffset := buf.lineStart store.memory fromLine
    let toOffset := buf.lineStart store.memory (toLine + 1)
    bufferDeleteRange store buf fromLine toLine =
      .ok (((store.read ⟨buf.data, fromOffset⟩).read ⟨buf.data, toOffset⟩).memmove (buf.data + fromOffset)
          (buf.data + toOffset) (toOffset - fromOffset),
        { buf with used := buf.used - (toOffset - fromOffset), nlines := minus buf.nlines (toLine - fromLine + 1) }) := by
  intro fromOffset toOffset
  have small := Nat.lt_of_le_of_lt placed.room placed.word
  have before : fromOffset ≤ toOffset := Nat.le_of_lt (lineStart_lt positive (by omega) (by omega))
  have ends : toOffset ≤ buf.used := lineStart_le buf store.memory (Nat.succ_le_succ inside)
  have count : minus toOffset fromOffset = toOffset - fromOffset :=
    minus_of_le (Nat.lt_of_le_of_lt ends small) before
  have shorter : toOffset - fromOffset ≤ buf.used := Nat.le_trans (Nat.sub_le _ _) ends
  have removed : wrap (minus toLine fromLine + 1) = toLine - fromLine + 1 := by
    rw [minus_of_le (by omega) order, wrap_of_lt (by omega)]
  have start : mustGetLineOffset store buf fromLine = .ok
    (fromOffset, store.read ⟨buf.data, fromOffset⟩) :=
    mustGetLineOffset_there positive (by omega)
  have stop : mustGetLineOffset (store.read ⟨buf.data, fromOffset⟩) buf (wrap (toLine + 1)) =
      .ok (toOffset, (store.read ⟨buf.data, fromOffset⟩).read ⟨buf.data, toOffset⟩) := by
    rw [wrap_of_lt word]
    exact mustGetLineOffset_there (Nat.le_add_left _ _) (Nat.succ_le_succ inside)
  rw [bufferDeleteRange, if_pos order, start]
  simp only [bind, Except.bind, stop, count, if_pos shorter, removed]
  rw [minus_of_le small shorter]

/-- As many bytes of the tail move down as are deleted; what the text keeps behind them are
bytes of the tail that did not move. -/
theorem deleted_text (memory : Memory) (buf : Buffer) (order : first ≤ last)
    (inside : last ≤ buf.used) :
    (memory.copy (buf.data + first) (buf.data + last) (last - first)).window buf.data
      (buf.used - (last - first)) =
      (buf.text memory).take first ++ (((buf.text memory).drop last).take (last - first) ++
        ((buf.text memory).drop last).take (((buf.text memory).drop last).length - (last - first))) := by
  obtain ⟨period, rfl⟩ := Nat.exists_eq_add_of_le order
  obtain ⟨tail, total⟩ := Nat.exists_eq_add_of_le inside
  have parts : buf.used - (first + period - first) = first + tail := by omega
  have rest : (buf.text memory).drop (first + period) =
    memory.window (buf.data + (first + period)) tail := by
    rw [Buffer.text, Memory.window_drop _ _ inside]
    congr 1
    omega
  rw [parts, Nat.add_sub_cancel_left, rest, Memory.window_length, Memory.window_append]
  congr 1
  · rw [Buffer.text, Memory.window_take _ _ (by omega)]
    exact Memory.Agree.window (Memory.copy_agree _ (.inl (Nat.le_refl _)))
  rcases Nat.le_total tail period with short | long
  · rw [Memory.window_copy _ short, Nat.sub_eq_zero_of_le short, List.take_zero, List.append_nil]
    exact (List.take_of_length_le (Nat.le_trans (Nat.le_of_eq (Memory.window_length _ _ _)) short)).symm
  · obtain ⟨more, rfl⟩ := Nat.exists_eq_add_of_le long
    rw [Nat.add_sub_cancel_left, Memory.window_take _ _ (Nat.le_add_right _ _),
      Memory.window_take _ _ (Nat.le_add_left _ _),
      Memory.window_append, Memory.window_copy _ (Nat.le_refl _)]
    congr 1
    rw [← Nat.add_assoc]
    exact Memory.Agree.window (Memory.copy_agree _ (.inr (Nat.le_refl _)))

/-- The text after a deletion, with the lines that were meant to stay in full only in part. -/
theorem deleteRange_text (placed : buf.Placed) (positive : 1 ≤ fromLine) (order : fromLine ≤ toLine)
    (inside : toLine ≤ (buf.lines store.memory).length) (word : toLine + 1 < 2 ^ 32)
    (done : bufferDeleteRange store buf fromLine toLine = .ok (after, changed)) :
    let period := buf.lineStart store.memory (toLine + 1) - buf.lineStart store.memory fromLine
    let tail := ((buf.lines store.memory).drop toLine).flatten ++
      unfinished newline (buf.text store.memory)
    changed.text after.memory = ((buf.lines store.memory).take (fromLine - 1)).flatten ++
      (tail.take period ++ tail.take (tail.length - period)) := by
  intro period tail
  rw [bufferDeleteRange_eq placed positive order inside word] at done
  obtain ⟨rfl, rfl⟩ := Prod.mk.inj (Except.ok.inj done)
  have before := (lines_split newline (buf.text store.memory) (fromLine - 1)).1
  have behind := (lines_split newline (buf.text store.memory) toLine).2
  have moved := deleted_text store.memory buf
    (Nat.le_of_lt (@lineStart_lt buf _ store.memory (toLine + 1) positive (by omega) (by omega)))
    (lineStart_le buf store.memory (Nat.succ_le_succ inside))
  refine moved.trans ?_
  rw [show (buf.text store.memory).take (buf.lineStart store.memory fromLine) = _ from before,
    show (buf.text store.memory).drop (buf.lineStart store.memory (toLine + 1)) = tail from behind]
  rfl

def typed (text : List UInt8) : Store := ⟨Memory.writeBytes (fun _ => 0) 0x20010000 text, [], []⟩

end Delete
end PicoOs.Userland
