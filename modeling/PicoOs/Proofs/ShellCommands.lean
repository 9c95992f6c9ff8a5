import PicoOs.Proofs.ShellArguments
import PicoOs.Userland.Readline

/-! Command lines of the shell. The tokenizer splits every line, but the copy that is made to
count the arguments needs a second block of the heap, which `malloc` does not hand out. -/

namespace PicoOs.Userland
open Library

section
variable {store : Store} {str delim address other : Nat} {string delims : CString}

def strtokAll (store : Store) (str delim saveptr calls : Nat) :
    Except StringFault (List (Option Nat) × Nat × Store) := do
  let (result, saveptr, store) ← strtokR store (some str) delim saveptr
  let (results, saveptr, store) ← strtokCalls delim calls store saveptr
  .ok (result :: results, saveptr, store)

/-- Two strings in the address space that have no byte in common, the first of them not at the null
pointer. -/
structure Given (store : Store) (str delim : Nat) (string delims : CString) : Prop where
  line : store.memory.HoldsString str string
  set : store.memory.HoldsString delim delims
  nonnull : 0 < str
  fits : str + string.length < 2 ^ 32 ∧ delim + delims.length < 2 ^ 32
  apart : Separate str (string.length + 1) delim (delims.length + 1)

theorem Given.scanning (given : Given store str delim string delims) :
    Scanning store str delim string delims 0 := by
  have line := given.line
  have length : (string.bytes ++ [0]).length = string.length + 1 := List.length_append
  have fits := given.fits
  refine ⟨?_, ?_, given.set, ?_, ?_⟩
  · intro index _ below
    rw [line index (by omega), List.getElem?_append_left below]
  · have last : some (store.memory (str + string.length)) =
      (string.bytes ++ [0])[string.bytes.length]? :=
      line string.length (by omega)
    rw [List.getElem?_concat_length] at last
    exact Option.some.inj last
  · unfold memorySize
    omega
  · unfold memorySize
    omega

theorem Given.beside (given : Given store str delim string delims) :
    str + string.length < delim ∨ delim + delims.length < str := by
  have separate := given.apart
  unfold Separate at separate
  omega

private theorem subtract_zero {left right : UInt8} :
    (left.toNat : Int) - right.toNat = 0 ↔ left = right := by
  rw [Int.sub_eq_zero, Int.ofNat_inj]
  exact UInt8.toNat_inj

private theorem subtractBytes_spec (store : Store) (address other : Nat) :
    ∃ order after, subtractBytes store address other = (order, after) ∧
    (order = 0 ↔ store.memory address = store.memory other) ∧
      after.memory = store.memory :=
  ⟨_, _, rfl, subtract_zero, rfl⟩

private theorem HoldsBytes.uncons {memory : Memory} {byte : UInt8} {bytes : List UInt8}
    (holds : memory.HoldsBytes address (byte :: bytes)) :
    memory address = byte ∧ memory.HoldsBytes (address + 1) bytes := by
  refine ⟨Option.some.inj (holds 0 (Nat.succ_pos _)), ?_⟩
  intro index inside
  have next := holds (index + 1) (Nat.succ_lt_succ inside)
  rwa [← Nat.add_assoc, Nat.add_right_comm] at next

private theorem strcmpFrom_ends (rounds : Nat) (ends : store.memory address = 0) :
    ∃ order after, strcmpFrom (rounds + 1) store address other = .ok (order, after) ∧
      (order = 0 ↔ store.memory other = 0) ∧ after.memory = store.memory := by
  obtain ⟨order, after, subtracted, zero, kept⟩ :=
    subtractBytes_spec (store.load address).2 address other
  refine ⟨order, after, ?_, zero.trans ?_, kept⟩
  · simp only [strcmpFrom, Store.load, ends, if_true]
    exact congrArg Except.ok subtracted
  · show store.memory address = store.memory other ↔ _
    rw [ends]
    exact eq_comm

/-- The comparison of two bytes, the first of them not a terminator. -/
private theorem strcmpFrom_round (store : Store) (address other rounds : Nat)
    (goes : store.memory address ≠ 0) :
    ∃ compared, compared.memory = store.memory ∧ strcmpFrom (rounds + 1) store address other =
      if store.memory address = store.memory other then
        strcmpFrom rounds compared (address + 1) (other + 1)
      else .ok (subtractBytes compared address other) := by
  refine ⟨(((store.load address).2.load address).2.load other).2, rfl, ?_⟩
  simp only [strcmpFrom, Store.load]
  exact if_neg goes

private theorem strcmpFrom_differs (rounds : Nat) (goes : store.memory address ≠ 0)
    (apart : store.memory address ≠ store.memory other) :
    ∃ order after, strcmpFrom (rounds + 1) store address other = .ok (order, after) ∧
      order ≠ 0 ∧ after.memory = store.memory := by
  obtain ⟨compared, same, round⟩ := strcmpFrom_round store address other rounds goes
  obtain ⟨order, after, subtracted, zero, kept⟩ := subtractBytes_spec compared address other
  rw [same] at zero
  exact ⟨order, after, by rw [round, if_neg apart, subtracted], zero.not.mpr apart, kept.trans same⟩

private theorem strcmpFrom_spec {left right : List UInt8} {rounds : Nat} (cleanLeft : 0 ∉ left)
    (cleanRight : 0 ∉ right)
    (holdsLeft : store.memory.HoldsBytes address (left ++ [0]))
    (holdsRight : store.memory.HoldsBytes other (right ++ [0]))
    (enough : left.length < rounds) :
    ∃ order after, strcmpFrom rounds store address other = .ok (order, after) ∧
      (order = 0 ↔ left = right) ∧ after.memory = store.memory := by
  obtain ⟨rounds, rfl⟩ := Nat.exists_eq_succ_of_ne_zero (Nat.ne_zero_of_lt enough)
  induction left generalizing address other store rounds right with
  | nil =>
    obtain ⟨order, after, done, zero, kept⟩ :=
      @strcmpFrom_ends store address other rounds (HoldsBytes.uncons holdsLeft).1
    refine ⟨order, after, done, zero.trans ?_, kept⟩
    cases right with
    | nil => exact ⟨fun _ => rfl, fun _ => (HoldsBytes.uncons holdsRight).1⟩
    | cons byte right =>
      rw [(HoldsBytes.uncons holdsRight).1]
      exact ⟨fun zero => absurd (zero ▸ List.mem_cons_self) cleanRight, fun same => by cases same⟩
  | cons byte left ih =>
    obtain ⟨first, rest⟩ := HoldsBytes.uncons holdsLeft
    have goes : store.memory address ≠ 0 := fun zero =>
      cleanLeft (first.symm.trans zero ▸ List.mem_cons_self)
    cases right with
    | nil =>
      have second := (HoldsBytes.uncons holdsRight).1
      obtain ⟨order, after, done, unequal, kept⟩ :=
        strcmpFrom_differs rounds goes fun same => goes (same.trans second)
      exact ⟨order, after, done, iff_of_false unequal (List.cons_ne_nil _ _), kept⟩
    | cons item right =>
      obtain ⟨second, more⟩ := HoldsBytes.uncons holdsRight
      by_cases equal : byte = item
      · obtain ⟨compared, same, round⟩ := strcmpFrom_round store address other rounds goes
        have left_enough : left.length < rounds := Nat.lt_of_succ_lt_succ enough
        obtain ⟨rounds, rfl⟩ := Nat.exists_eq_succ_of_ne_zero (Nat.ne_zero_of_lt left_enough)
        obtain ⟨order, after, done, zero, kept⟩ :=
          @ih compared (address + 1) (other + 1) right
            (fun member => cleanLeft (List.mem_cons_of_mem _ member))
            (fun member => cleanRight (List.mem_cons_of_mem _ member))
            (by rwa [same]) (by rwa [same]) rounds left_enough
        refine ⟨order, after, ?_, zero.trans ?_, kept.trans same⟩
        · rw [round, if_pos (by rw [first, second, equal]), done]
        · rw [equal, List.cons.injEq, eq_self, true_and]
      · have apart : store.memory address ≠ store.memory other := by rwa [first, second]
        obtain ⟨order, after, done, unequal, kept⟩ := strcmpFrom_differs rounds goes apart
        refine ⟨order, after, done, iff_of_false unequal ?_, kept⟩
        exact fun whole => equal (List.cons.inj whole).1

private theorem strcmp_spec {left right : CString}
    (holdsLeft : store.memory.HoldsString address left)
    (holdsRight : store.memory.HoldsString other right) (short : left.length < memorySize) :
    ∃ order after, strcmp store address other = .ok (order, after) ∧ (order = 0 ↔ left = right) ∧
    after.memory = store.memory := by
  obtain ⟨order, after, done, zero, kept⟩ :=
    strcmpFrom_spec left.property right.property holdsLeft holdsRight short
  exact ⟨order, after, done, zero.trans Subtype.ext_iff.symm, kept⟩

private theorem isBuiltin_spec {memory : Memory} {names : List Nat} {literals : List CString}
    {program : CString}
    (holds : memory.HoldsString address program) (short : program.length < memorySize)
    (there : List.Forall₂ memory.HoldsString names literals) (same : store.memory = memory) :
    ∃ after, Shell.isBuiltin names store address = .ok (decide (program ∈ literals), after) ∧
    after.memory = memory := by
  induction there generalizing store with
  | nil => exact ⟨store, rfl, same⟩
  | @cons name literal names literals first rest ih =>
    obtain ⟨order, middle, compared, zero, kept⟩ := strcmp_spec (same ▸ holds) (same ▸ first) short
    rw [Shell.isBuiltin, compared]
    by_cases equal : program = literal
    · refine ⟨middle, ?_, kept.trans same⟩
      simp [bind, Except.bind, zero.mpr equal, equal]
    · obtain ⟨after, done, still⟩ := ih (kept.trans same)
      refine ⟨after, ?_, still⟩
      simp only [bind, Except.bind, if_neg (zero.not.mpr equal), done, List.mem_cons,
        equal, false_or]

private theorem malloc_behind {symbols : HeapSymbols} {heap size : Nat}
    (behind : symbols.start < heap) (inside : heap < 2 ^ 32)
    (small : size < 2 ^ 32) : malloc symbols heap size = .error .assert := by
  have rounded : roundToWord size < 2 ^ 32 := by
    unfold roundToWord minus wrap
    split <;> omega
  have pointer : minus (wrap (heap + roundToWord size)) (roundToWord size) = heap := by
    unfold minus wrap
    omega
  have unfolded : malloc symbols heap size =
      if minus (wrap ((if heap = 0 then symbols.heapStart else heap) + roundToWord size))
        (roundToWord size) ≤ symbols.start then
        .ok (minus (wrap ((if heap = 0 then symbols.heapStart else heap) + roundToWord size)) (roundToWord size),
          wrap ((if heap = 0 then symbols.heapStart else heap) + roundToWord size))
      else .error .assert := rfl
  rw [unfolded, if_neg (Nat.ne_of_gt (Nat.lt_of_le_of_lt (Nat.zero_le _) behind)), pointer,
    if_neg (Nat.not_le_of_lt behind)]

private theorem Scanning.rest {place : Nat}
    (scanning : Scanning store str delim string delims place) (inside : place ≤ string.length) :
    store.memory.HoldsString (str + place) (CString.behind string place) := by
  intro index below
  have length : ((CString.behind string place).bytes ++ [0]).length = string.length - place + 1 :=
    List.length_append.trans (congrArg (· + 1) (behind_length string place))
  rw [length] at below
  rcases Nat.lt_or_eq_of_le (Nat.lt_succ_iff.mp below) with earlier | rfl
  · have there := scanning.bytes (place + index) (Nat.le_add_right _ _) (by omega)
    rw [List.getElem?_append_left (by rw [← behind_length] at earlier; exact earlier), Nat.add_assoc, ← there]
    exact List.getElem?_drop.symm
  · rw [List.getElem?_append_right (Nat.le_of_eq (behind_length string place)), Nat.add_assoc,
      Nat.add_sub_cancel' inside,
      scanning.terminator]
    have nothing : string.length - place - (CString.behind string place).bytes.length = 0 := by
      rw [← behind_length]
      exact Nat.sub_self _
    rw [nothing]
    rfl

private theorem buildArguments_fails {symbols : HeapSymbols} {heap program : Nat}
    (holds : store.memory.HoldsString address string)
    (short : string.length < memorySize) (behind : symbols.start < heap) (inside : heap < 2 ^ 32) :
    Shell.buildArguments symbols heap store delim program address = .error (.malloc .assert) := by
  obtain ⟨after, measured, _⟩ := strlen_spec holds short
  have refused : (malloc symbols heap (wrap (string.length + 1))).mapError StringFault.malloc =
    .error (.malloc .assert) := by
    rw [malloc_behind behind inside (show wrap (string.length + 1) < 2 ^ 32 from Nat.mod_lt _ (by decide))]
    rfl
  have failed : strdup symbols heap store address = .error (.malloc .assert) := by
    rw [strdup]
    exact bind_error.mpr (.inr ⟨_, measured, bind_error.mpr (.inl refused)⟩)
  rw [Shell.buildArguments]
  exact bind_error.mpr (.inl failed)

def CString.token (string delims : CString) (start : Nat) : CString :=
  ⟨tokenAt (delimits delims) string.bytes start,
    fun member => string.property (List.mem_of_mem_drop ((List.takeWhile_sublist _).subset member))⟩

/-- The first token is a command that the shell has itself. There may be none. -/
def Shell.Known (string delims : CString) : Prop :=
  ∀ start ∈ (tokenStarts (delimits delims) string.bytes 0).head?,
    CString.token string delims start ∈ builtins

def Shell.Literals (store : Store) (str : Nat) (string : CString) (names : List Nat) : Prop :=
  List.Forall₂ (fun name literal => store.memory.HoldsString name literal ∧
    Separate name (literal.length + 1) str (string.length + 1))
    names builtins

private theorem Shell.Literals.frame {after : Store} {names : List Nat}
    (literals : Shell.Literals store str string names)
    (frame : ∀ other, other < str ∨ str + string.length ≤ other →
      after.memory other = store.memory other) :
    List.Forall₂ after.memory.HoldsString names builtins := by
  refine literals.imp ?_
  rintro name literal ⟨holds, apart⟩ index inside
  have length : (literal.bytes ++ [0]).length = literal.length + 1 := List.length_append
  unfold Separate at apart
  rw [frame (name + index) (by omega)]
  exact holds index inside

/-- A line is blank, or a command of the shell, or it fails for want of a second block. -/
theorem interpret_spec {symbols : HeapSymbols} {heap : Nat} {names : List Nat}
    (given : Given store str delim string delims)
    (literals : Shell.Literals store str string names) (behind : symbols.start < heap)
    (inside : heap < 2 ^ 32) :
    (Shell.Known string delims ∧ ∃ command after, Shell.interpret symbols heap store names delim str = .ok (command, after) ∧
      (command = .blank ∨ command = .builtin)) ∨
    ¬ Shell.Known string delims ∧
    Shell.interpret symbols heap store names delim str = .error (.malloc .assert) := by
  obtain ⟨result, next, after, call, step⟩ :=
    strtokR_step given.scanning (Nat.zero_le _) (.inl rfl) given.beside
  have first : strtokR store (some str) delim 0 = .ok (result, str + next, after) := call
  rcases step.result with ⟨nothing, _, rfl⟩ | ⟨start, starts, rfl, delivered⟩
  · refine .inl ⟨?_, .blank, after, ?_, .inl rfl⟩
    · rw [Shell.Known, nothing]
      intro start member
      cases member
    · rw [Shell.interpret, first]
      rfl
  have known : Shell.Known string delims ↔ CString.token string delims start ∈ Shell.builtins := by
    rw [Shell.Known, starts]
    exact ⟨fun all => all start rfl, fun one start member => by cases member; exact one⟩
  have holds : after.memory.HoldsString (str + start) (CString.token string delims start) :=
    delivered.holds
  have shorter : (CString.token string delims start).length ≤ string.length :=
    Nat.le_trans (List.takeWhile_sublist _).length_le
      (List.drop_sublist start string.bytes).length_le
  have short := Nat.lt_of_le_of_lt shorter given.scanning.short.1
  obtain ⟨compared, done, same⟩ := isBuiltin_spec holds short (literals.frame step.frame) rfl
  by_cases builtin : CString.token string delims start ∈ Shell.builtins
  · refine .inl ⟨known.mpr builtin, .builtin, compared, ?_, .inr rfl⟩
    rw [Shell.interpret, first]
    simp only [bind, Except.bind, done, builtin, decide_true, if_true]
  · refine .inr ⟨known.not.mpr builtin, ?_⟩
    obtain ⟨measured, length, kept⟩ := strlen_spec (same.symm ▸ holds) short
    have nonempty : ¬ (CString.token string delims start).length < 1 := by
      have member : start ∈ tokenStarts (delimits delims) string.bytes 0 :=
        starts ▸ List.mem_cons_self
      exact Nat.not_lt.mpr (tokenAt_length_pos (mem_tokenStarts.mp member).2)
    have rest := (step.scanning.same (kept.trans same)).rest step.inside
    have fails := @buildArguments_fails measured delim (str + next) (CString.behind string next)
      symbols heap (str + start) rest
      (Nat.lt_of_le_of_lt (behind_length string next ▸ Nat.sub_le _ _) given.scanning.short.1) behind inside
    rw [Shell.interpret, first]
    simp only [bind, Except.bind, done, builtin, decide_false, Bool.false_eq_true, if_false, length,
      nonempty, fails]

/-- A line as `main` finds it in a shell that has just started: `readline` has put it in the first
block of the heap. -/
structure Shell.Ready (symbols : HeapSymbols) (heap : Nat) (store : Store) (str : Nat)
    (string : CString) (names : List Nat) : Prop where
  typed : ∃ before prompt input line, Readline.readline symbols 0 before prompt input = .ok line ∧
    line.pointer = str ∧ line.heap = heap ∧ line.call.store.memory = store.memory
  room : symbols.start + Readline.bufferSize < 2 ^ 32
  literals : Shell.Literals store str string names

private theorem Shell.Ready.heap {symbols : HeapSymbols} {heap : Nat} {names : List Nat}
    (ready : Shell.Ready symbols heap store str string names) :
    heap = symbols.start + Readline.bufferSize := by
  obtain ⟨⟨before, prompt, input, line, read, rfl, rfl, _⟩, room, _⟩ := ready
  obtain ⟨call, _, read⟩ := bind_ok.mp read
  obtain ⟨block, allocated, read⟩ := bind_ok.mp read
  obtain ⟨final, _, read⟩ := bind_ok.mp read
  cases Except.ok.inj read
  have fresh : malloc symbols 0 Readline.bufferSize = .ok block := by
    cases answer : malloc symbols 0 Readline.bufferSize with
    | ok value =>
      rw [answer] at allocated
      exact congrArg Except.ok (Except.ok.inj allocated)
    | error fault =>
      rw [answer] at allocated
      cases allocated
  have rounded : roundToWord Readline.bufferSize = Readline.bufferSize := rfl
  rw [malloc, if_pos rfl, rounded] at fresh
  split at fresh
  next =>
    cases Except.ok.inj fresh
    exact wrap_of_lt room
  next => cases fresh

/-- The shell gets to the next step for a line, and passes on all tokens if it runs a program. -/
def Shell.Passes (symbols : HeapSymbols) (heap : Nat) (store : Store) (names : List Nat)
    (delim str : Nat) (string delims : CString) : Prop :=
  ∃ command after, interpret symbols heap store names delim str = .ok (command, after) ∧
    ∀ argc argv, command = .program argc argv →
      argc = (tokenStarts (delimits delims) string.bytes 0).length ∧
      after.memory.HoldsWords argv ((tokenStarts (delimits delims) string.bytes 0).map (str + ·) ++ [0]) ∧
        ∀ pointer ∈ (tokenStarts (delimits delims) string.bytes 0).map (str + ·), pointer ≠ 0

theorem Shell.Ready.passes_iff {symbols : HeapSymbols} {heap : Nat} {names : List Nat}
    (ready : Shell.Ready symbols heap store str string names)
    (given : Given store str delim string delims) :
    Shell.Passes symbols heap store names delim str string delims ↔ Shell.Known string delims := by
  have taken := ready.heap
  have room := ready.room
  have behind : symbols.start < heap := taken ▸ Nat.lt_add_of_pos_right (by decide)
  rcases interpret_spec given ready.literals behind
    (taken ▸ room) with ⟨known, command, after, done, ends⟩ | ⟨unknown, failed⟩
  · refine iff_of_true ⟨command, after, done, ?_⟩ known
    rintro argc argv rfl
    rcases ends with ends | ends
    · cases ends
    · cases ends
  · refine iff_of_false ?_ unknown
    rintro ⟨command, after, done, _⟩
    cases failed.symm.trans done

end

/-- The calls return the tokens of the string in order and then nothing, with each token as a string
of its own, and access nothing but the two strings. As many tokens are counted in a copy as are then
taken from the string. -/
structure Tokenizes (store : Store) (str delim saveptr : Nat) (string delims : CString) : Prop where
  calls : ∀ calls, ∃ last after, strtokAll store str delim saveptr calls =
      .ok (answers str (tokenStarts (delimits delims) string.bytes 0) (calls + 1), last, after) ∧
    store.Within after (Readable str delim string delims) (Spans str string) ∧
      ∀ start ∈ (tokenStarts (delimits delims) string.bytes 0).take (calls + 1),
        after.memory.HoldsBytes (str + start) (tokenAt (delimits delims) string.bytes start ++ [0])
  arguments : ∀ program rest middle, strtokR store (some str) delim saveptr =
    .ok (some program, rest, middle) →
    ∀ clone argv, Shell.Blocks str delim clone argv
      (tokenStarts (delimits delims) string.bytes 0).length string delims (rest - str) →
      Shell.Fills middle delim program rest clone argv (string.length - (rest - str) + 1)
        ((tokenStarts (delimits delims) string.bytes 0).map (str + ·))

private theorem Given.tokenizes {store : Store} {str delim : Nat} {string delims : CString}
    (given : Given store str delim string delims)
    (saveptr : Nat) : Tokenizes store str delim saveptr string delims := by
  constructor
  · intro calls
    obtain ⟨last, after, done, within, _, holds⟩ :=
      strtokCalls_spec (calls + 1) given.scanning (Nat.zero_le _) (.inl rfl) given.beside
    exact ⟨str + last, after, done, within, holds⟩
  · intro program rest middle call clone argv blocks
    obtain ⟨result, next, after, same, step⟩ :=
      strtokR_step given.scanning (Nat.zero_le _) (.inl rfl) given.beside
    obtain ⟨rfl, saved⟩ := Prod.mk.inj (Except.ok.inj (same.symm.trans call))
    obtain ⟨rfl, rfl⟩ := Prod.mk.inj saved
    rw [Nat.add_sub_cancel_left] at blocks ⊢
    rcases step.result with ⟨_, _, none⟩ | ⟨start, starts, program, delivered⟩
    · cases none
    cases program
    have inside : start ≤ string.length := by
      have reached := delivered.behind 0 (Nat.zero_le _)
      have bound := step.inside
      omega
    rw [starts, List.length_cons] at blocks
    rw [starts]
    exact fills_spec step.scanning step.inside step.between given.beside given.fits.1 inside blocks

/-- Every string is split into its tokens. But of the command lines the shell only gets through
those that are blank or start with one of its own commands. -/
theorem strtok_splits {store : Store} {str delim : Nat} {string delims : CString}
    (given : Given store str delim string delims)
    (saveptr : Nat) : Tokenizes store str delim saveptr string delims ∧
      ∀ symbols heap names, Shell.Ready symbols heap store str string names →
        (Shell.Passes symbols heap store names delim str string delims ↔
          Shell.Known string delims) :=
  ⟨given.tokenizes saveptr, fun _ _ _ ready => ready.passes_iff given⟩

def commandLine : CString := ⟨[0x61, 0x20, 0x20, 0x62, 0x20], by decide⟩

def blank : CString := ⟨[0x20], by decide⟩

def shellHeap : HeapSymbols := ⟨0x20010000, 0x20020000⟩

def builtinNames : List Nat :=
  [0x20001010, 0x20001020, 0x20001030, 0x20001040, 0x20001050, 0x20001060]

def shellStore : Store where
  memory := (builtinNames.zip Shell.builtins).foldl (fun memory name => memory.strcpy name.1 name.2)
    (Memory.strcpy (fun _ => 0) 0x20001000 blank)
  reads := []
  writes := []

theorem commandLine_ready : ∃ store, Given store 0x20010000 0x20001000 commandLine blank ∧
    Shell.Ready shellHeap 0x20010100 store 0x20010000 commandLine builtinNames := by
  have played : (Readline.readline shellHeap 0 shellStore ⟨[],
    List.not_mem_nil⟩ (commandLine.bytes ++ [Readline.lineFeed])).toOption.map
      (fun line => decide (line.pointer = 0x20010000 ∧ line.heap = 0x20010100 ∧
        (∀ index < 6, some (line.call.store.memory (0x20010000 + index)) = (commandLine.bytes ++ [0])[index]?) ∧
        (∀ index < 2, some (line.call.store.memory (0x20001000 + index)) = (blank.bytes ++ [0])[index]?) ∧
        ∀ name ∈ builtinNames.zip Shell.builtins, ∀ index < (name.2.bytes ++ [0]).length,
          some (line.call.store.memory (name.1 + index)) = (name.2.bytes ++ [0])[index]?)) =
            some true := by decide +kernel
  obtain ⟨line, read, facts⟩ := Option.map_eq_some_iff.mp played
  obtain ⟨pointer, heap, typed, delimiters, literals⟩ := of_decide_eq_true facts
  refine ⟨line.call.store, ⟨typed, delimiters, by decide, by decide, .inr (by decide)⟩,
    ⟨_, _, _, line, toOption_some.mp read, pointer, heap, rfl⟩, by decide, ?_⟩
  refine List.forall₂_iff_zip.mpr ⟨rfl, ?_⟩
  intro name literal member
  refine ⟨literals ⟨name, literal⟩ member, ?_⟩
  have apart : ∀ name ∈ builtinNames.zip Shell.builtins, name.1 + (name.2.length + 1) ≤
    0x20010000 := by decide
  exact .inl (apart ⟨name, literal⟩ member)

theorem strtok_splits_command :
    ∃ store, Shell.Ready shellHeap 0x20010100 store 0x20010000 commandLine builtinNames ∧
    Tokenizes store 0x20010000 0x20001000 0 commandLine blank ∧
      (Shell.Passes shellHeap 0x20010100 store builtinNames 0x20001000 0x20010000 commandLine blank ↔ Shell.Known commandLine blank) := by
  obtain ⟨store, given, ready⟩ := commandLine_ready
  obtain ⟨tokenizes, passes⟩ := strtok_splits given 0
  exact ⟨store, ready, tokenizes, passes shellHeap 0x20010100 builtinNames ready⟩

/-- The shell does not get any further than to the copy of the line. -/
theorem shell_asserts : ∃ store, Shell.Ready shellHeap 0x20010100 store 0x20010000
    commandLine builtinNames ∧
    Shell.interpret shellHeap 0x20010100 store builtinNames 0x20001000 0x20010000 =
      .error (.malloc .assert) ∧
      ¬ Shell.Passes shellHeap 0x20010100 store builtinNames 0x20001000 0x20010000
        commandLine blank := by
  obtain ⟨store, given, ready⟩ := commandLine_ready
  have unknown : ¬ Shell.Known commandLine blank := by
    intro known
    have first : CString.token commandLine blank 0 ∈ Shell.builtins := known 0 (by decide)
    exact absurd first (by decide)
  rcases @interpret_spec store _ _ commandLine blank shellHeap 0x20010100 builtinNames
    given ready.literals
    (by decide) (by decide) with ⟨known, _⟩ | ⟨_, failed⟩
  · exact absurd known unknown
  · exact ⟨store, ready, failed, (ready.passes_iff given).not.mpr unknown⟩

end PicoOs.Userland
