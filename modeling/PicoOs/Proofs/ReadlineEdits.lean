import PicoOs.Userland.Readline

/-! `readline` returns the line that is left after the deletions, if the byte behind it is still
in the buffer when the line feed has been stored: the line feed itself counts. -/

namespace PicoOs.Userland.Readline
open Library
variable {buffer index : Nat} {ch : UInt8} {pending typed rest : List UInt8} {before : Store}
  {call : Call}

def edit (pending : List UInt8) (ch : UInt8) : List UInt8 := if ch = delete then pending.dropLast else pending ++ [ch]

def edits (typed : List UInt8) : List UInt8 := typed.foldl edit []

/-- At no moment are more bytes pending than the buffer has room for in front of a terminator. -/
def Fits (typed : List UInt8) : Prop :=
  ∀ done, done <+: typed → (edits done).length ≤ bufferSize - 1

def InBuffer (buffer address : Nat) : Prop := buffer ≤ address ∧ address < buffer + bufferSize

/-- The line is returned with its terminator, only the buffer has been accessed, and nothing
behind the line feed has been read. -/
def Edits (symbols : HeapSymbols) (heap : Nat) (store : Store) (prompt : CString)
    (typed rest : List UInt8) : Prop :=
  ∃ line, readline symbols heap store prompt (typed ++ lineFeed :: rest) = .ok line ∧
    line.call.store.memory.HoldsBytes line.pointer (edits typed ++ [0]) ∧
    store.Within line.call.store (InBuffer line.pointer) (InBuffer line.pointer) ∧
      line.call.input = rest

structure Editing (buffer : Nat) (before : Store) (pending : List UInt8) (call : Call) : Prop where
  index : call.index = pending.length
  bytes : call.store.memory.HoldsBytes buffer pending
  within : before.Within call.store (InBuffer buffer) (InBuffer buffer)

theorem inBuffer (inside : index < bufferSize) : InBuffer buffer (buffer + index) :=
  ⟨Nat.le_add_right _ _, Nat.add_lt_add_left inside _⟩

theorem print_prompt (call : Call) (prompt : CString) :
    print call promptFormat [.string prompt] =
      .ok { call with output := call.output ++ prompt.bytes } := rfl

theorem print_erase (call : Call) :
    print call eraseFormat [] = .ok { call with output := call.output ++ eraseFormat } := rfl

theorem Editing.stores (editing : Editing buffer before pending call)
    (inside : pending.length < bufferSize) (ch : UInt8) :
    (call.store.put (buffer + call.index) ch).load (buffer + call.index) =
        (ch, (call.store.put (buffer + call.index) ch).read ⟨buffer + call.index, 1⟩) ∧
      Editing buffer before (pending ++ [ch])
        { call with index := call.index + 1, store := (call.store.put (buffer + call.index) ch).read ⟨buffer + call.index, 1⟩ } := by
  have allowed : InBuffer buffer (buffer + call.index) := inBuffer (editing.index ▸ inside)
  refine ⟨?_, ?_, ?_, ?_⟩
  · exact Prod.ext (if_pos rfl) rfl
  · rw [List.length_append, List.length_singleton, ← editing.index]
  · rw [editing.index]
    exact editing.bytes.write ch
  · exact (editing.within.trans (.put _ ch allowed _)).trans (.load _ allowed _)

/-- A zero takes the place of a byte, and the bytes before it are those that are pending. -/
theorem Editing.cuts {line : List UInt8} (editing : Editing buffer before line call) {count : Nat}
    (value : UInt8)
    (shorter : count < line.length) (inside : count < bufferSize) :
    Editing buffer before (line.take count) { call with index := count, store := call.store.put (buffer + count) value } where
  index := by rw [List.length_take, Nat.min_eq_left shorter.le]
  bytes := by
    intro position earlier
    have kept : position < count := by
      rw [List.length_take, Nat.min_eq_left shorter.le] at earlier
      exact earlier
    simp only [Store.put, Memory.write]
    rw [if_neg (by omega)]
    exact editing.bytes.take count position earlier
  within := editing.within.trans (.put _ value (inBuffer inside) _)

private theorem body_edits (editing : Editing buffer before pending call)
    (inside : pending.length < bufferSize)
    (plain : ch ≠ lineFeed) :
    ∃ later, body buffer call ch = .ok (.goesOn later) ∧
    Editing buffer before (edit pending ch) later := by
  obtain ⟨loads, stored⟩ := editing.stores inside ch
  unfold body edit
  simp only [loads]
  by_cases deletes : ch = delete
  · simp only [if_pos deletes]
    by_cases empty : call.index = 0
    · obtain rfl : pending = [] := List.length_eq_zero_iff.mp (editing.index ▸ empty)
      rw [if_pos empty]
      exact ⟨_, rfl, editing.index, nofun, stored.within⟩
    · have fewer : call.index - 1 < (pending ++ [ch]).length := by
        rw [List.length_append, List.length_singleton, ← editing.index]
        omega
      have cut := stored.cuts 0 fewer (by rw [editing.index]; omega)
      have dropped : (pending ++ [ch]).take (call.index - 1) = pending.dropLast := by
        rw [editing.index, List.take_append_of_le_length (Nat.sub_le _ _), List.dropLast_eq_take]
      rw [dropped] at cut
      simp only [if_neg empty, print_erase, bind, Except.bind]
      exact ⟨_, rfl, cut.index, cut.bytes, cut.within⟩
  · simp only [if_neg deletes, if_neg plain]
    exact ⟨_, rfl, stored.index, stored.bytes, stored.within⟩

private theorem loop_edits (editing : Editing buffer before pending call) (plain : lineFeed ∉ typed)
    (fits : ∀ done, done <+: typed → (done.foldl edit pending).length < bufferSize) :
    ∃ later, loop buffer (typed ++ rest) call = loop buffer rest later ∧
      Editing buffer before (typed.foldl edit pending) later := by
  induction typed generalizing pending call with
  | nil => exact ⟨call, rfl, editing⟩
  | cons byte typed ih =>
    have inside : pending.length < bufferSize := fits [] (List.nil_prefix)
    have again : Editing buffer before pending { call with input := typed ++ rest } :=
      ⟨editing.index, editing.bytes, editing.within⟩
    have other : byte ≠ lineFeed := by
      rintro rfl
      exact plain List.mem_cons_self
    obtain ⟨middle, read, edited⟩ := body_edits again inside other
    obtain ⟨later, reads, edits⟩ :=
      ih edited (fun member => plain (List.mem_cons_of_mem _ member)) (by
      intro done front
      exact fits (byte :: done) (List.cons_prefix_cons.mpr ⟨rfl, front⟩))
    refine ⟨later, ?_, edits⟩
    rw [List.cons_append, loop, if_pos (editing.index ▸ inside), read]
    exact reads

private theorem body_lineFeed (editing : Editing buffer before pending call)
    (inside : pending.length + 1 < bufferSize) :
    ∃ later, body buffer call lineFeed = .ok (.returns later) ∧ later.input = call.input ∧
      later.store.memory.HoldsBytes buffer (pending ++ [0]) ∧
      before.Within later.store (InBuffer buffer) (InBuffer buffer) := by
  obtain ⟨loads, stored⟩ := editing.stores ((Nat.lt_succ_self _).trans inside) lineFeed
  have kept := stored.bytes.take pending.length
  rw [List.take_left] at kept
  have allowed : InBuffer buffer (buffer + call.index) :=
    inBuffer (editing.index ▸ (Nat.lt_succ_self _).trans inside)
  have terminated := kept.write 0
  rw [← editing.index] at terminated inside
  unfold body
  simp only [loads]
  rw [if_neg (by decide)]
  simp only [↓reduceIte]
  rw [if_neg (not_not.mpr inside), if_neg (not_not.mpr (Nat.succ_pos _))]
  exact ⟨_, rfl, rfl, terminated, stored.within.trans (.put _ 0 allowed _)⟩

/-- With the last place of the buffer taken by the line feed the first assertion fails. -/
theorem body_full (editing : Editing buffer before pending call)
    (full : ¬pending.length + 1 < bufferSize) :
    body buffer call lineFeed = .error .assert := by
  rw [← editing.index] at full
  unfold body
  simp only [Store.load, Store.put, Memory.write, ↓reduceIte]
  rw [if_neg (by decide)]
  simp only [if_pos full]

theorem loop_lineFeed (editing : Editing buffer before pending call)
    (inside : pending.length < bufferSize) (rest : List UInt8) :
    (pending.length + 1 < bufferSize → ∃ later, loop buffer (lineFeed :: rest) call = .ok later ∧
      later.input = rest ∧
        later.store.memory.HoldsBytes buffer (pending ++ [0]) ∧
        before.Within later.store (InBuffer buffer) (InBuffer buffer)) ∧
      (¬pending.length + 1 < bufferSize → loop buffer (lineFeed :: rest) call =
        .error .assert) := by
  have again : Editing buffer before pending { call with input := rest } :=
    ⟨editing.index, editing.bytes, editing.within⟩
  constructor
  · intro free
    obtain ⟨later, ends, left, terminated, within⟩ := body_lineFeed again free
    refine ⟨later, ?_, left, terminated, within⟩
    rw [loop, if_pos (editing.index ▸ inside), ends]
    rfl
  · intro full
    rw [loop, if_pos (editing.index ▸ inside), body_full again full]
    rfl

private theorem readline_malloc {symbols : HeapSymbols} {heap : Nat} {fault : MallocFault}
    (failed : malloc symbols heap bufferSize = .error fault) (store : Store) (prompt : CString)
    (input : List UInt8) :
    readline symbols heap store prompt input = .error (.malloc fault) := by
  unfold readline
  rw [print_prompt, failed]
  rfl

private theorem readline_loop {symbols : HeapSymbols} {heap after : Nat}
    (allocated : malloc symbols heap bufferSize = .ok (buffer, after)) (store : Store)
    (prompt : CString) (input : List UInt8) :
    readline symbols heap store prompt input =
      (loop buffer input ⟨store, input, 0, prompt.bytes⟩).map fun call => ⟨buffer,
        after, call⟩ := by
  unfold readline
  rw [print_prompt, allocated]
  change (loop buffer input ⟨store, input, 0, prompt.bytes⟩).bind _ = _
  cases loop buffer input ⟨store, input, 0, prompt.bytes⟩ <;> rfl

theorem readline_reads {symbols : HeapSymbols} {heap after : Nat}
    (allocated : malloc symbols heap bufferSize = .ok (buffer, after)) (store : Store)
    (prompt : CString) (rest : List UInt8)
    (plain : lineFeed ∉ typed) (fits : Fits typed) :
    ∃ later, readline symbols heap store prompt (typed ++ lineFeed :: rest) =
        (loop buffer (lineFeed :: rest) later).map (fun call => ⟨buffer, after, call⟩) ∧
      Editing buffer store (edits typed) later := by
  have below : ∀ done, done <+: typed → (edits done).length < bufferSize :=
    fun done front => Nat.lt_of_le_of_lt (fits done front) (by decide)
  have started : Editing buffer store [] ⟨store, typed ++ lineFeed :: rest, 0, prompt.bytes⟩ :=
    ⟨rfl, nofun, .refl _ _ _⟩
  obtain ⟨later, reads, editing⟩ :=
    @loop_edits buffer [] typed (lineFeed :: rest) store _ started plain below
  exact ⟨later, by rw [readline_loop allocated, reads], editing⟩

theorem readline_full {symbols : HeapSymbols} {heap after : Nat}
    (allocated : malloc symbols heap bufferSize = .ok (buffer, after)) (store : Store)
    (prompt : CString) (rest : List UInt8)
    (plain : lineFeed ∉ typed) (fits : Fits typed) (full : ¬(edits typed).length + 1 < bufferSize) :
    readline symbols heap store prompt (typed ++ lineFeed :: rest) = .error .assert := by
  obtain ⟨later, called, editing⟩ := readline_reads allocated store prompt rest plain fits
  obtain ⟨-, fails⟩ := loop_lineFeed editing (Nat.lt_of_le_of_lt (fits typed List.prefix_rfl) (by decide)) rest
  rw [called, fails full]
  rfl

/-- The line is returned exactly if there is room for the block, and the last place of the buffer
is still free when the line feed is stored. -/
theorem readline_edits_iff (symbols : HeapSymbols) (heap : Nat) (store : Store) (prompt : CString)
    (rest : List UInt8)
    (plain : lineFeed ∉ typed) (fits : Fits typed) :
    Edits symbols heap store prompt typed rest ↔
      (∃ block, malloc symbols heap bufferSize = .ok block) ∧
      (edits typed).length + 1 < bufferSize := by
  unfold Edits
  cases allocated : malloc symbols heap bufferSize with
  | error fault =>
    rw [readline_malloc allocated]
    constructor
    · rintro ⟨line, returned, -⟩
      cases returned
    · rintro ⟨⟨block, again⟩, -⟩
      cases again
  | ok block =>
    obtain ⟨buffer, after⟩ := block
    constructor
    · rintro ⟨line, returned, -⟩
      refine ⟨⟨_, rfl⟩, ?_⟩
      by_contra full
      rw [readline_full allocated store prompt rest plain fits full] at returned
      cases returned
    · rintro ⟨-, free⟩
      obtain ⟨later, called, editing⟩ := readline_reads allocated store prompt rest plain fits
      obtain ⟨call, returned, left, terminated, within⟩ :=
        (loop_lineFeed editing ((Nat.lt_succ_self _).trans free) rest).1 free
      rw [called, returned]
      exact ⟨_, rfl, terminated, within, left⟩

private theorem length_edit_le (pending : List UInt8) (ch : UInt8) :
    (edit pending ch).length ≤ pending.length + 1 := by
  unfold edit
  split
  · rw [List.length_dropLast]
    omega
  · rw [List.length_append, List.length_singleton]

private theorem length_edits_le (pending typed : List UInt8) :
    (typed.foldl edit pending).length ≤ pending.length + typed.length := by
  induction typed generalizing pending with
  | nil => exact Nat.le_refl _
  | cons ch typed ih =>
    have rest := ih (edit pending ch)
    have first := length_edit_le pending ch
    rw [List.foldl_cons, List.length_cons]
    omega

theorem fits_of_length (few : typed.length < bufferSize) : Fits typed := by
  intro done front
  have within := length_edits_le [] done
  have shorter := front.length_le
  have whole : (edits done).length ≤ done.length := by
    simpa only [edits, List.length_nil, Nat.zero_add] using within
  omega

private theorem edits_plain (pending : List UInt8) (plain : delete ∉ typed) :
    typed.foldl edit pending = pending ++ typed := by
  induction typed generalizing pending with
  | nil => exact (List.append_nil _).symm
  | cons ch typed ih =>
    obtain ⟨other, rest⟩ := not_or.mp (List.mem_cons.not.mp plain)
    rw [List.foldl_cons, ih _ rest, edit, if_neg (Ne.symm other), List.append_assoc,
      List.singleton_append]

def smallHeap : HeapSymbols := ⟨0x20010000, 0x20020000⟩

theorem malloc_small : malloc smallHeap 0 bufferSize = .ok (0x20010000, 0x20010100) := by decide

theorem readline_edits_iff_short :
    Edits smallHeap 0 ⟨fun _ => 0, [], []⟩ ⟨[], List.not_mem_nil⟩ [0x61, 0x62, delete] [] :=
  (readline_edits_iff smallHeap 0 _ _ [] (by decide) (fits_of_length (by decide))).mpr ⟨⟨_, malloc_small⟩, by decide⟩

def letters : List UInt8 := List.replicate 255 0x61

/-- With 255 letters in front of the line feed the assertion fails. -/
theorem readline_asserts : lineFeed ∉ letters ∧ Fits letters ∧
    readline smallHeap 0 ⟨fun _ => 0, [], []⟩ ⟨[], List.not_mem_nil⟩ (letters ++ [lineFeed]) =
      .error .assert ∧
    ¬Edits smallHeap 0 ⟨fun _ => 0, [], []⟩ ⟨[], List.not_mem_nil⟩ letters [] := by
  have count : letters.length = 255 := List.length_replicate
  have plain : ∀ ch, ch ≠ 0x61 → ch ∉ letters :=
    fun ch other member => other (List.eq_of_mem_replicate member)
  have fits : Fits letters := fits_of_length (by rw [count]; decide)
  have all : edits letters = letters := edits_plain [] (plain delete (by decide))
  have asserts := readline_full malloc_small ⟨fun _ => 0, [], []⟩ ⟨[], List.not_mem_nil⟩ []
    (plain lineFeed (by decide)) fits
    (by rw [all, count]; decide)
  refine ⟨plain lineFeed (by decide), fits, asserts, ?_⟩
  rintro ⟨line, returned, -⟩
  cases asserts.symm.trans returned

end PicoOs.Userland.Readline
