import PicoOs.Library.Outcome
import PicoOs.Proofs.EditorBuffers

/-! Runs of the editor, and the count of lines it keeps beside the text. Loading a file does not
count its lines, so that the count is right only where there were none; a command keeps it right if
it inserts inside the text and the buffer, and deletes as many newlines as lines. -/

namespace PicoOs.Userland
open Library

section Counts
variable {store after : Store} {buf changed : Buffer} {fromLine toLine offset data dataSize : Nat}

/-- The part of the tail that is not moved has as many newlines as the part that should have
been. -/
def Counts (store : Store) (buf : Buffer) (fromLine toLine : Nat) : Prop :=
  let period := buf.lineStart store.memory (toLine + 1) - buf.lineStart store.memory fromLine
  let tail := ((buf.lines store.memory).drop toLine).flatten ++
    unfinished newline (buf.text store.memory)
  (tail.take (tail.length - period)).count newline = (tail.drop period).count newline

instance (store : Store) (buf : Buffer) (fromLine toLine : Nat) :
    Decidable (Counts store buf fromLine toLine) :=
  inferInstanceAs (Decidable (_ = _))

theorem lines_count (buf : Buffer) (memory : Memory) :
    (buf.lines memory).length = (buf.text memory).count newline :=
  lines_length newline (buf.text memory)

theorem count_le_used (buf : Buffer) (memory : Memory) :
    (buf.text memory).count newline ≤ buf.used :=
  Nat.le_trans List.count_le_length (Nat.le_of_eq (buf.text_length memory))

theorem bufferDeleteRange_ok (bounded : toLine + 1 < 2 ^ 32)
    (done : bufferDeleteRange store buf fromLine toLine = .ok (after, changed)) :
    1 ≤ fromLine ∧ fromLine ≤ toLine ∧ toLine ≤ (buf.lines store.memory).length := by
  rw [bufferDeleteRange] at done
  split at done
  next order =>
    cases first : mustGetLineOffset store buf fromLine with
    | error fault =>
      rw [first] at done
      cases done
    | ok found =>
      obtain ⟨positive, _, rfl⟩ := mustGetLineOffset_ok first
      rw [first] at done
      simp only [bind, Except.bind, wrap_of_lt bounded] at done
      cases last : mustGetLineOffset (store.read ⟨buf.data, buf.lineStart store.memory fromLine⟩)
        buf (toLine + 1) with
      | error fault =>
        rw [last] at done
        cases done
      | ok found =>
        obtain ⟨_, inside, _⟩ := mustGetLineOffset_ok last
        exact ⟨positive, order, Nat.le_of_succ_le_succ inside⟩
  next => cases done

private theorem delete_counted (placed : buf.Placed) (bounded : toLine + 1 < 2 ^ 32)
    (counts : Counts store buf fromLine toLine)
    (counted : buf.nlines = (buf.text store.memory).count newline)
    (done : bufferDeleteRange store buf fromLine toLine = .ok (after, changed)) :
    changed.nlines = (changed.text after.memory).count newline := by
  obtain ⟨positive, order, inside⟩ := bufferDeleteRange_ok bounded done
  have text := deleteRange_text placed positive order inside bounded done
  have small := Nat.lt_of_le_of_lt (Nat.le_trans (count_le_used buf store.memory) placed.room) placed.word
  have total := lines_count buf store.memory
  have single : ∀ line ∈ buf.lines store.memory, line.count newline = 1 :=
    fun line member => line_count member
  have front : ((buf.lines store.memory).take (fromLine - 1)).flatten.count newline =
    ((buf.lines store.memory).take (fromLine - 1)).length :=
    count_flatten fun line member => single line (List.mem_of_mem_take member)
  have rest : ((buf.lines store.memory).drop toLine).flatten.count newline =
    ((buf.lines store.memory).drop toLine).length :=
    count_flatten fun line member => single line (List.mem_of_mem_drop member)
  have whole := congrArg (List.count newline) (lines_unfinished newline (buf.text store.memory))
  rw [List.count_append, ← Buffer.lines, count_flatten single, ← total] at whole
  have nlines : changed.nlines = minus buf.nlines (toLine - fromLine + 1) := by
    rw [bufferDeleteRange_eq placed positive order inside bounded] at done
    obtain ⟨-, rfl⟩ := Prod.mk.inj (Except.ok.inj done)
    rfl
  unfold Counts at counts
  simp only at counts text
  rw [nlines, counted, text, List.count_append, List.count_append, counts, ← List.count_append,
    List.take_append_drop,
    List.count_append, front, rest,
      minus_of_le (by omega) (by omega), List.length_take, List.length_drop]
  omega

/-- An insertion that stays in the buffer, as the state after it shows it. -/
theorem append_inserts (placed : buf.Placed) (inside : offset ≤ buf.used)
    (room : offset + dataSize + buf.used ≤ buf.size)
    (apart : data + dataSize ≤ buf.data ∨ buf.stop ≤ data)
    (done : bufferAppendAtOffset store buf offset data dataSize = .ok (after, changed)) :
    changed.text after.memory = (buf.text store.memory).take offset ++
      store.memory.window data dataSize ++
        (buf.text store.memory).drop offset ∧
      changed = { buf with used := buf.used + dataSize } ∧
      ∀ {first last}, last ≤ buf.data ∨ buf.stop ≤ first →
        Memory.Agree store.memory after.memory first last := by
  have text := @inserted_text store buf offset data dataSize room inside (.inr apart)
  have stop : buf.stop = buf.data + buf.size := rfl
  have fits : buf.used + dataSize ≤ buf.size := by omega
  rw [bufferAppendAtOffset_eq placed fits] at done
  obtain ⟨rfl, rfl⟩ := Prod.mk.inj (Except.ok.inj done)
  refine ⟨text, rfl, fun outside => ?_⟩
  exact Memory.Agree.trans (Memory.copy_agree _ (by omega)) (Memory.copy_agree _ (by omega))

private theorem count_inserted (text inserted : List UInt8) (offset : Nat) :
    (text.take offset ++ inserted ++ text.drop offset).count newline = text.count newline +
      inserted.count newline := by
  have whole := congrArg (List.count newline) (List.take_append_drop offset text)
  rw [List.count_append] at whole
  rw [List.count_append, List.count_append]
  omega

end Counts

namespace Editor
variable {editor next : Editor} {event : EditorEvent}

/-- What a step must not do for the count to stay right: insert behind the text or move bytes out of
the buffer, or delete other newlines than those of the lines. -/
def Meets (editor : Editor) : EditorEvent → Prop
  | .append (some (selectionStart, some selectionEnd)) =>
      Counts editor.store editor.buf selectionStart selectionEnd
  | .append _ => True
  | .line _ line _ => ∀ offset ∈ editor.inserting, offset ≤ editor.buf.used ∧
      offset + editor.buf.used + 2 * line.length + 1 ≤ editor.buf.size
  | .dot => True
  | .delete selectionStart selectionEnd =>
      Counts editor.store editor.buf selectionStart (selectionEnd.getD selectionStart)

instance (editor : Editor) (event : EditorEvent) : Decidable (editor.Meets event) :=
  match event with
  | .append none | .append (some (_, none)) | .dot => instDecidableTrue
  | .append (some (_, some _)) | .delete _ _ => inferInstanceAs (Decidable (Counts _ _ _ _))
  | .line _ _ _ => inferInstanceAs (Decidable (∀ offset ∈ editor.inserting, _))

structure Counted (editor : Editor) : Prop where
  placed : editor.buf.Placed
  nonnull : 4 ≤ editor.buf.data
  nlines : editor.buf.nlines = editor.text.count newline

private theorem Counted.reads {store : Store} {inserting : Option Nat} (counted : editor.Counted)
    (same : store.memory = editor.store.memory) :
    Counted { store, buf := editor.buf, inserting } := by
  refine ⟨counted.placed, counted.nonnull, ?_⟩
  have nlines := counted.nlines
  rw [text, ← same] at nlines
  exact nlines

private theorem Counted.deleted {after : Store} {changed : Buffer} {fromLine toLine : Nat}
    {inserting : Option Nat}
    (counted : editor.Counted) (bounded : toLine + 1 < 2 ^ 32)
    (counts : Counts editor.store editor.buf fromLine toLine)
    (done : bufferDeleteRange editor.store editor.buf fromLine toLine = .ok (after, changed)) :
    Counted { store := after, buf := changed, inserting } := by
  obtain ⟨positive, order, inside⟩ := bufferDeleteRange_ok bounded done
  have nlines := delete_counted counted.placed bounded counts counted.nlines done
  rw [bufferDeleteRange_eq counted.placed positive order inside bounded] at done
  obtain ⟨rfl, rfl⟩ := Prod.mk.inj (Except.ok.inj done)
  exact ⟨⟨Nat.le_trans (Nat.sub_le _ _) counted.placed.room, counted.placed.word,
    counted.placed.fits⟩, counted.nonnull, nlines⟩

private theorem appendLine_ok {offset address literal : Nat} {line : CString}
    (done : editor.appendLine offset address line literal = .ok next) :
    ∃ between buf after changed,
      bufferAppendAtOffset
          { editor.store with memory := editor.store.memory.strcpy address line } editor.buf
          offset address line.length = .ok (between, buf) ∧
        bufferAppendAtOffset between buf (wrap (offset + line.length)) literal 1 =
          .ok (after, changed) ∧
        next = {
          store := after
          buf := { changed with nlines := wrap (changed.nlines + 1) }
          inserting := some (wrap (wrap (offset + line.length) + 1)) } := by
  unfold appendLine at done
  dsimp only at done
  split at done
  next =>
    obtain ⟨⟨between, buf⟩, first, done⟩ := bind_ok.mp done
    obtain ⟨⟨after, changed⟩, second, done⟩ := bind_ok.mp done
    exact ⟨between, buf, after, changed, first, second, (Except.ok.inj done).symm⟩
  next => cases done

/-- Typing a line changes neither the text nor the literal. -/
private theorem Counted.typed {address literal : Nat} {line : CString} (counted : editor.Counted)
    (allowed : editor.permitted (.line address line literal)) :
    editor.buf.text (editor.store.memory.strcpy address line) = editor.text ∧
      (editor.store.memory.strcpy address line).window address line.length = line.bytes ∧
      editor.store.memory.strcpy address line literal = newline := by
  obtain ⟨_, _, lineApart, literalApart, objectsApart, known⟩ := allowed
  have room := counted.placed.room
  have stop : editor.buf.stop = editor.buf.data + editor.buf.size := rfl
  have string : (line.bytes ++ [0]).length = line.length + 1 := by
    rw [List.length_append]
    rfl
  refine ⟨?_, ?_, ?_⟩
  · exact Memory.Agree.window (Memory.writeBytes_apart _ (by omega))
  · exact Memory.window_writeBytes editor.store.memory address line.bytes [0]
  · have same : editor.store.memory.strcpy address line literal = editor.store.memory literal :=
      Memory.writeBytes_apart _ (by omega) literal (Nat.le_refl _) (Nat.lt_succ_self _)
    exact same.trans known

private theorem Counted.appended {offset address literal : Nat} {line : CString}
    (counted : editor.Counted)
    (allowed : editor.permitted (.line address line literal)) (inside : offset ≤ editor.buf.used)
    (room : offset + editor.buf.used + 2 * line.length + 1 ≤ editor.buf.size)
    (done : editor.appendLine offset address line literal = .ok next) : next.Counted := by
  obtain ⟨same, source, terminator⟩ := counted.typed allowed
  obtain ⟨_, clean, lineApart, literalApart, objectsApart, known⟩ := allowed
  obtain ⟨placed, nonnull, nlines⟩ := counted
  have word := placed.word
  have stop : editor.buf.stop = editor.buf.data + editor.buf.size := rfl
  obtain ⟨between, buf, after, changed, first, second, rfl⟩ := appendLine_ok done
  obtain ⟨text, rfl, outside⟩ := append_inserts placed inside (by omega) (by omega) first
  rw [wrap_of_lt (show offset + line.length < 2 ^ 32 by omega)] at second
  have longer : Buffer.Placed { editor.buf with used := editor.buf.used + line.length } :=
    ⟨by simp only; omega, placed.word, placed.fits⟩
  obtain ⟨whole, rfl, _⟩ :=
    append_inserts longer (show offset + line.length ≤ editor.buf.used + line.length by omega)
      (by simp only; omega) (by simp only [Buffer.stop]; omega) second
  have literally : between.memory.window literal 1 = [newline] := by
    have kept : between.memory literal = editor.store.memory.strcpy address line literal :=
      @outside literal (literal + 1) (by omega) literal (Nat.le_refl _) (Nat.lt_succ_self _)
    exact congrArg (fun byte => [byte]) (kept.trans terminator)
  have count : (Buffer.text { editor.buf with used := editor.buf.used + line.length + 1 }
      after.memory).count newline = editor.text.count newline + 1 := by
    rw [whole, count_inserted, text, count_inserted, same, source, literally,
      List.count_eq_zero_of_not_mem clean, List.count_singleton_self, Nat.add_zero]
  have bounded : editor.text.count newline ≤ editor.buf.used :=
    count_le_used editor.buf editor.store.memory
  refine ⟨⟨by simp only; omega, placed.word, placed.fits⟩, nonnull, ?_⟩
  refine Eq.trans ?_ count.symm
  rw [nlines, wrap_of_lt]
  omega

private theorem Counted.step (counted : editor.Counted) (meets : editor.Meets event)
    (allowed : machine.permitted editor event)
    (executed : machine.execute editor event = .ok next) : next.Counted := by
  cases event with
  | dot =>
    cases executed
    exact counted.reads rfl
  | delete selectionStart selectionEnd =>
    obtain ⟨_, small, smaller⟩ := allowed
    have bounded : selectionEnd.getD selectionStart + 1 < 2 ^ 32 := by
      cases selectionEnd with
      | none => exact Nat.lt_of_le_of_lt (Nat.succ_le_of_lt small) (by decide)
      | some selectionEnd =>
          exact Nat.lt_of_le_of_lt (Nat.succ_le_of_lt (smaller selectionEnd rfl)) (by decide)
    cases done : bufferDeleteRange editor.store editor.buf selectionStart
      (selectionEnd.getD selectionStart) with
    | error fault => simp [machine, execute, deleteLines, done, bind, Except.bind] at executed
    | ok result =>
      simp only [machine, execute, deleteLines, done, bind, Except.bind] at executed
      cases executed
      exact counted.deleted bounded meets done
  | line address line literal =>
    obtain ⟨offset, inserting⟩ := Option.isSome_iff_exists.mp allowed.1
    obtain ⟨inside, room⟩ := meets offset inserting
    have done : editor.appendLine offset address line literal = .ok next := by
      have executed : editor.appendLine (editor.inserting.getD 0) address line literal = .ok next :=
        executed
      rwa [inserting] at executed
    exact counted.appended allowed inside room done
  | append selection =>
    obtain ⟨_, small⟩ := allowed
    rcases selection with _ | ⟨selectionStart, _ | selectionEnd⟩
    · cases executed
      exact counted.reads rfl
    · cases found : mustGetLineOffset editor.store editor.buf (wrap (selectionStart + 1)) with
      | error fault => simp [machine, execute, beginAppend, found, bind, Except.bind] at executed
      | ok result =>
        simp only [machine, execute, beginAppend, found, bind, Except.bind] at executed
        obtain ⟨_, _, rfl⟩ := mustGetLineOffset_ok found
        cases executed
        exact counted.reads rfl
    · cases found : mustGetLineOffset editor.store editor.buf (wrap (selectionStart + 1)) with
      | error fault => simp [machine, execute, beginAppend, found, bind, Except.bind] at executed
      | ok result =>
        simp only [machine, execute, beginAppend, found, bind, Except.bind] at executed
        obtain ⟨_, _, rfl⟩ := mustGetLineOffset_ok found
        simp only at executed
        split at executed
        next => cases executed
        next result done =>
          cases executed
          have bounded := (small _ rfl).2 selectionEnd rfl
          let area : Area := ⟨editor.buf.data,
            editor.buf.lineStart editor.store.memory (wrap (selectionStart + 1))⟩
          have read : Counted ⟨editor.store.read area, editor.buf, none⟩ := counted.reads rfl
          exact read.deleted (Nat.lt_of_le_of_lt (Nat.succ_le_of_lt bounded) (by decide)) meets done

/-- A line of the text lies between its start and that of the next one. -/
theorem window_line (buf : Buffer) (memory : Memory) {lineno : Nat}
    (there : lineno < (buf.lines memory).length) :
    memory.window (buf.data + buf.lineStart memory (lineno + 1))
        (buf.lineStart memory (lineno + 2) - buf.lineStart memory (lineno + 1)) =
          (buf.lines memory)[lineno] := by
  have ends := @lineStart_le (lineno + 2) buf memory (by omega)
  have next := blockStart_succ (List.getElem?_eq_getElem there)
  have start : buf.lineStart memory (lineno + 1) = blockStart (buf.lines memory) lineno := rfl
  have stop : buf.lineStart memory (lineno + 2) = blockStart (buf.lines memory) (lineno + 1) := rfl
  have length : buf.lineStart memory (lineno + 2) - buf.lineStart memory (lineno + 1) =
    ((buf.lines memory)[lineno]).length := by
    omega
  have inside : buf.lineStart memory (lineno + 1) ≤ buf.used := by omega
  have rest := (lines_split newline (buf.text memory) lineno).2
  rw [← Buffer.lines, List.drop_eq_getElem_cons there, List.flatten_cons, List.append_assoc] at rest
  have dropped : (buf.text memory).drop (buf.lineStart memory (lineno + 1)) =
      memory.window (buf.data + buf.lineStart memory (lineno + 1))
        (buf.used - buf.lineStart memory (lineno + 1)) :=
    Memory.window_drop memory buf.data inside
  rw [length, ← Memory.window_take memory _ (show ((buf.lines memory)[lineno]).length ≤
    buf.used - buf.lineStart memory (lineno + 1) by omega), ← dropped, start, rest, List.take_left]

private theorem listFrom_eq (placed : editor.buf.Placed) {steps lineno : Nat}
    (small : lineno + steps + 1 < 2 ^ 32)
    (all : lineno + steps ≤ (editor.buf.lines editor.store.memory).length) :
    ∃ output, editor.listFrom steps (lineno + 1) = .ok output ∧
      output.map Prod.snd = ((editor.buf.lines editor.store.memory).drop lineno).take steps := by
  induction steps generalizing lineno with
  | zero => exact ⟨[], rfl, by simp⟩
  | succ steps ih =>
    obtain ⟨more, listed, same⟩ := @ih (lineno + 1) (by omega) (by omega)
    have there : lineno < (editor.buf.lines editor.store.memory).length := by omega
    have start := @mustGetLineOffset_there editor.store editor.buf (lineno + 1)
      (Nat.le_add_left _ _) (by omega)
    have stop := @mustGetLineOffset_there editor.store editor.buf (lineno + 1 + 1)
      (Nat.le_add_left _ _) (by omega)
    have next : wrap (lineno + 1 + 1) = lineno + 1 + 1 := wrap_of_lt (by omega)
    have before : editor.buf.lineStart editor.store.memory (lineno + 1) <
        editor.buf.lineStart editor.store.memory (lineno + 1 + 1) :=
          lineStart_lt (Nat.le_add_left _ _) (by omega) (by omega)
    have ends := @lineStart_le (lineno + 1 + 1) editor.buf editor.store.memory (by omega)
    have word := placed.word
    have room := placed.room
    have length := minus_of_le (show editor.buf.lineStart editor.store.memory (lineno + 1 + 1) < 2 ^ 32 by omega)
      (Nat.le_of_lt before)
    simp only [listFrom, bind, Except.bind, start, next, stop, listed, length]
    refine ⟨_, rfl, ?_⟩
    rw [List.map_cons, same, List.drop_eq_getElem_cons there, List.take_succ_cons]
    simp only [List.cons.injEq, and_true]
    exact window_line editor.buf editor.store.memory there

private theorem Counted.lists (counted : editor.Counted) :
    ∃ output, editor.listAll = .ok output ∧
    output.map Prod.snd = editor.buf.lines editor.store.memory := by
  obtain ⟨placed, nonnull, nlines⟩ := counted
  have total := lines_count editor.buf editor.store.memory
  have fewer := count_le_used editor.buf editor.store.memory
  have room := placed.room
  have fits := placed.fits
  have stop : editor.buf.stop = editor.buf.data + editor.buf.size := rfl
  have same : editor.buf.nlines = (editor.buf.lines editor.store.memory).length :=
    nlines.trans total.symm
  have steps : wrap (editor.buf.nlines + 1) - 1 = editor.buf.nlines := by
    rw [wrap_of_lt (by omega), Nat.add_sub_cancel]
  obtain ⟨output, listed, written⟩ :=
    @listFrom_eq editor placed editor.buf.nlines 0 (by omega) (by omega)
  refine ⟨output, ?_, ?_⟩
  · rw [listAll, steps]
    exact listed
  · rw [written, List.drop_zero, same, List.take_length]

theorem deleteAll_asserts (editor : Editor) : editor.deleteAll = .error .assert := by
  rw [deleteAll, deleteLines, bufferDeleteRange, if_pos (Nat.zero_le _), mustGetLineOffset_eq,
    if_neg (by omega)]
  rfl

/-- A file without newlines is loaded with the right count, and only such a file. -/
theorem start_counted_iff {memory : Memory} {data : Nat} {file : Option (List UInt8)}
    (nonnull : 4 ≤ data)
    (fits : data + ((file.getD []).length + 0x200) ≤ 2 ^ 32) :
    (start memory data file).Counted ↔ newline ∉ file.getD [] := by
  cases file with
  | none =>
    refine ⟨fun _ => List.not_mem_nil, fun _ => ⟨⟨Nat.zero_le _, ?_, ?_⟩, nonnull, rfl⟩⟩
    · simp [start, fresh]
    · simpa [start, fresh, Buffer.stop] using fits
  | some file =>
    simp only [Option.getD_some] at fits ⊢
    have loaded : (load memory data file).text = file := by
      have written := Memory.window_writeBytes memory data file []
      rwa [List.append_nil] at written
    have size : wrap (file.length + 0x200) = file.length + 0x200 := wrap_of_lt (by omega)
    have placed : (load memory data file).buf.Placed := by
      refine ⟨?_, ?_, ?_⟩
      all_goals
        simp only [load, Buffer.stop, size]
        omega
    constructor
    · intro counted
      have none := counted.nlines
      rw [show (start memory data (some file)).text = file from loaded] at none
      exact List.count_eq_zero.mp none.symm
    · intro clean
      refine ⟨placed, nonnull, ?_⟩
      rw [show (start memory data (some file)).text = file from loaded,
        List.count_eq_zero_of_not_mem clean]
      rfl

/-- What the count is there for: `l` and `d` without a selection take the whole text. -/
structure CountsLines (editor : Editor) : Prop where
  nlines : editor.buf.nlines = editor.text.count newline
  lists : ∃ output, editor.listAll = .ok output ∧ (output.map Prod.snd).flatten = editor.text
  deletes : ∃ after, editor.deleteAll = .ok after ∧ after.text = []

private theorem not_countsLines (editor : Editor) : ¬ editor.CountsLines := by
  rintro ⟨_, _, after, deleted, _⟩
  cases editor.deleteAll_asserts.symm.trans deleted

end Editor

/-- In no state does `d` without a selection take the whole text, since it fails. What remains is
the count: once a file without newlines is opened, or none, and as long as every step meets its
condition, it is right and `l` shows every line that ends. -/
theorem editor_counts {memory : Memory} {data : Nat} {file : Option (List UInt8)}
    {history : List (Editor × EditorEvent)}
    {editor : Editor} (nonnull : 4 ≤ data) (fits : data + ((file.getD []).length + 0x200) ≤ 2 ^ 32)
    (run : Editor.machine.Run (.start memory data file) history editor) :
    ¬ editor.CountsLines ∧ editor.deleteAll = .error .assert ∧
      (newline ∉ file.getD [] → (∀ entry ∈ history, entry.1.Meets entry.2) →
        editor.buf.nlines = editor.text.count newline ∧
          ∃ output, editor.listAll = .ok output ∧
          output.map Prod.snd = lines newline editor.text) := by
  refine ⟨editor.not_countsLines, editor.deleteAll_asserts, fun clean meets => ?_⟩
  have counted : editor.Counted := run.invariant_under Editor.Counted Editor.Meets
    ((Editor.start_counted_iff nonnull fits).mpr clean) (fun _ => Editor.Counted.step) meets
  exact ⟨counted.nlines, counted.lists⟩

def literalMemory : Memory := fun address => if address = 0x20019000 then newline else 0

theorem editor_counts_typed : ∃ history editor,
    Editor.machine.Run (.start literalMemory 0x20010000 (some [97])) history editor ∧
      editor.text = [97, 98, 99, 10] ∧ editor.buf.nlines = editor.text.count newline ∧
      ¬ editor.CountsLines := by
  have played : ((Editor.machine.restrict Editor.Meets).after (.start literalMemory 0x20010000 (some [97])) [.append none,
      .line 0x20018000 ⟨[98, 99],
        by decide⟩ 0x20019000, .line 0x20018000 ⟨[100], by decide⟩ 0x20019000, .dot,
      .delete 2 none]).map Editor.text = some [97, 98, 99, 10] := by
    decide +kernel
  obtain ⟨editor, executed, text⟩ := Option.map_eq_some_iff.mp played
  obtain ⟨history, restricted⟩ := Machine.reachable_after executed
  obtain ⟨run, meets⟩ := restricted.unrestrict
  obtain ⟨false, _, counts⟩ := @editor_counts _ _ (some [97]) _ _ (by decide) (by decide) run
  exact ⟨history, editor, run, text, (counts (by decide) meets).1, false⟩

/-- A file of one line: the count stays zero, and `d` fails. -/
theorem loaded_uncounted : ∃ editor,
    Editor.machine.Run (.start literalMemory 0x20010000 (some [97, 10])) [] editor ∧
      editor.buf.nlines ≠ editor.text.count newline ∧ editor.deleteAll = .error .assert := by
  exact ⟨_, .start, by decide +kernel, Editor.deleteAll_asserts _⟩

end PicoOs.Userland
