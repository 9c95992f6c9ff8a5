import PicoOs.Library.CStrings
import PicoOs.Library.Machine
import PicoOs.Userland.Store

/-! The line editor. Its buffer is one block of memory. -/

namespace PicoOs.Userland
open Library

inductive EditorFault where
  | assert
  deriving DecidableEq

structure Buffer where
  data : Nat
  size : Nat
  used : Nat
  nlines : Nat

def newline : UInt8 := 10

def bufferAppendAtOffset (store : Store) (buf : Buffer) (offset data dataSize : Nat) :
    Except EditorFault (Store × Buffer) :=
  if buf.size ≥ wrap (buf.used + dataSize) then
    let store := store.memmove (buf.data + offset + dataSize) (buf.data + offset) buf.used
    let store := store.memcpy (buf.data + offset) data dataSize
    .ok (store, { buf with used := wrap (buf.used + dataSize) })
  else .error .assert

/-- The loop of `buffer_get_line_offset` from an offset on, with the number of bytes up to
`used`. -/
def lineOffsetFrom (memory : Memory) (data : Nat) : Nat → Nat → Nat → Option Nat
  | remaining, lineno, offset =>
    if lineno > 0 then
      match remaining with
      | 0 => none
      | remaining + 1 =>
        if memory (data + offset) = newline then
          lineOffsetFrom memory data remaining (lineno - 1) (offset + 1)
        else lineOffsetFrom memory data remaining lineno (offset + 1)
    else some offset

/-- The offset is missing where the function returns -1. -/
def bufferGetLineOffset (store : Store) (buf : Buffer) (lineno : Nat) :
    Except EditorFault (Option Nat × Store) :=
  if lineno ≥ 1 then
    match lineOffsetFrom store.memory buf.data buf.used (lineno - 1) 0 with
    | none => .ok (none, store.read ⟨buf.data, buf.used⟩)
    | some offset => .ok (some offset, store.read ⟨buf.data, offset⟩)
  else .error .assert

/-- The lookup with `assert(retval == 0)` behind it. -/
def mustGetLineOffset (store : Store) (buf : Buffer) (lineno : Nat) :
    Except EditorFault (Nat × Store) := do
  let (offset, store) ← bufferGetLineOffset store buf lineno
  match offset with
  | none => .error .assert
  | some offset => .ok (offset, store)

def bufferDeleteRange (store : Store) (buf : Buffer) (fromLine toLine : Nat) :
    Except EditorFault (Store × Buffer) :=
  if fromLine ≤ toLine then do
    let (fromOffset, store) ← mustGetLineOffset store buf fromLine
    let (toOffset, store) ← mustGetLineOffset store buf (wrap (toLine + 1))
    let count := minus toOffset fromOffset
    if count ≤ buf.used then
      let store := store.memmove (buf.data + fromOffset) (buf.data + toOffset) count
      .ok (store, { buf with used := minus buf.used count,
                             nlines := minus buf.nlines (wrap (minus toLine fromLine + 1)) })
    else .error .assert
  else .error .assert

/-- The state of `main` between two lines of input, with the offset while command `a` takes
lines. -/
structure Editor where
  store : Store
  buf : Buffer
  inserting : Option Nat

/-- What is typed: the commands that change the buffer, and the lines for `a`. A line comes
with the place of its string, and with the place of the literal that is appended to it. -/
inductive EditorEvent where
  | append (selection : Option (Nat × Option Nat))
  | line (address : Nat) (text : CString) (literal : Nat)
  | dot
  | delete (selectionStart : Nat) (selectionEnd : Option Nat)

namespace Editor

def text (editor : Editor) : List UInt8 :=
  editor.store.memory.window editor.buf.data editor.buf.used

/-- `fstat`, `malloc` and `read` for a file that is opened; `data` is where the buffer lies. -/
def load (memory : Memory) (data : Nat) (file : List UInt8) : Editor where
  store := ⟨memory.writeBytes data file, [], []⟩
  buf := { data, size := wrap (file.length + 0x200), used := file.length, nlines := 0 }
  inserting := none

/-- Without a file. -/
def fresh (memory : Memory) (data : Nat) : Editor where
  store := ⟨memory, [], []⟩
  buf := { data, size := 0x200, used := 0, nlines := 0 }
  inserting := none

/-- `main` up to its loop. -/
def start (memory : Memory) (data : Nat) : Option (List UInt8) → Editor
  | some file => load memory data file
  | none => fresh memory data

/-- The command `a` up to its loop. The offset is the one before lines are deleted. -/
def beginAppend (editor : Editor) : Option (Nat × Option Nat) → Except EditorFault Editor
  | none => .ok { editor with inserting := some editor.buf.used }
  | some (selectionStart, none) => do
    let (offset, store) ← mustGetLineOffset editor.store editor.buf (wrap (selectionStart + 1))
    .ok { editor with store, inserting := some offset }
  | some (selectionStart, some selectionEnd) => do
    let (offset, store) ← mustGetLineOffset editor.store editor.buf (wrap (selectionStart + 1))
    let (store, buf) ← bufferDeleteRange store editor.buf selectionStart selectionEnd
    .ok { store, buf, inserting := some offset }

/-- A line that is not a single dot: the string `readline` has returned, then the literal. -/
def appendLine (editor : Editor) (offset address : Nat) (line : CString) (literal : Nat) :
    Except EditorFault Editor :=
  let store := { editor.store with memory := editor.store.memory.strcpy address line }
  if line.length ≥ 1 then do
    let (store, buf) ← bufferAppendAtOffset store editor.buf offset address line.length
    let offset := wrap (offset + line.length)
    let (store, buf) ← bufferAppendAtOffset store buf offset literal 1
    .ok { store, buf := { buf with nlines := wrap (buf.nlines + 1) }, inserting := some (wrap (offset + 1)) }
  else .error .assert

/-- The command `d` for the lines that are selected; without a selection they go from 0 to `nlines +
1`. -/
def deleteLines (editor : Editor) (startLine endLine : Nat) : Except EditorFault Editor := do
  let (store, buf) ← bufferDeleteRange editor.store editor.buf startLine endLine
  .ok { editor with store, buf }

def deleteAll (editor : Editor) : Except EditorFault Editor :=
  editor.deleteLines 0 (wrap (editor.buf.nlines + 1))

/-- The loop of the command `l`, with what it writes for each line. -/
def listFrom (editor : Editor) : Nat → Nat → Except EditorFault (List (Nat × List UInt8))
  | 0, _ => .ok []
  | steps + 1, lineno => do
    let (startOffset, _) ← mustGetLineOffset editor.store editor.buf lineno
    let (endOffset, _) ← mustGetLineOffset editor.store editor.buf (wrap (lineno + 1))
    let line := editor.store.memory.window (editor.buf.data + startOffset)
      (minus endOffset startOffset)
    let more ← editor.listFrom steps (lineno + 1)
    .ok ((lineno, line) :: more)

/-- The command `l` without a selection: from line 1 up to, not including, line `nlines + 1`. -/
def listAll (editor : Editor) : Except EditorFault (List (Nat × List UInt8)) :=
  editor.listFrom (wrap (editor.buf.nlines + 1) - 1) 1

/-- A number that `parse_integer` can give. -/
def selectable (lineno : Nat) : Prop := lineno < 2 ^ 31

/-- Commands are typed between insertions and lines inside of them. The string of a line
and the literal are objects of their own. -/
def permitted (editor : Editor) : EditorEvent → Prop
  | .append selection => editor.inserting = none ∧
      ∀ selected ∈ selection, selectable selected.1 ∧
        ∀ selectionEnd ∈ selected.2, selectable selectionEnd
  | .line address line literal => editor.inserting.isSome = true ∧ newline ∉ line.bytes ∧
      (address + line.length + 1 ≤ editor.buf.data ∨ editor.buf.data + editor.buf.size ≤ address) ∧
      (literal < editor.buf.data ∨ editor.buf.data + editor.buf.size ≤ literal) ∧
      (literal < address ∨ address + line.length + 1 ≤ literal) ∧
        editor.store.memory literal = newline
  | .dot => editor.inserting.isSome = true
  | .delete selectionStart selectionEnd => editor.inserting = none ∧ selectable selectionStart ∧
      ∀ lineno ∈ selectionEnd, selectable lineno

instance (editor : Editor) (event : EditorEvent) : Decidable (editor.permitted event) := by
  cases event <;> unfold permitted selectable <;> infer_instance

def execute (editor : Editor) : EditorEvent → Except EditorFault Editor
  | .append selection => editor.beginAppend selection
  | .line address line literal => editor.appendLine (editor.inserting.getD 0) address line literal
  | .dot => .ok { editor with inserting := none }
  | .delete selectionStart selectionEnd =>
      editor.deleteLines selectionStart (selectionEnd.getD selectionStart)

def machine : Machine Editor EditorEvent EditorFault where
  permitted := permitted
  execute := execute

instance (editor : Editor) (event : EditorEvent) : Decidable (machine.permitted editor event) :=
  inferInstanceAs (Decidable (editor.permitted event))

end Editor
end PicoOs.Userland
