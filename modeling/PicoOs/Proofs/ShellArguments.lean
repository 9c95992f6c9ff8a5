import PicoOs.Proofs.Tokenizer

/-! The arguments that the shell makes of a command line. The tokens are counted in a copy, and
then taken from the line itself. -/

namespace PicoOs.Userland
open Library

def Separate (first count second more : Nat) : Prop :=
  first + count ≤ second ∨ second + more ≤ first

section
variable {store : Store} {str delim place address : Nat} {string delims : CString}

private theorem strlenFrom_spec {bytes : List UInt8} {rounds length : Nat} (clean : 0 ∉ bytes)
    (holds : store.memory.HoldsBytes address (bytes ++ [0])) (enough : bytes.length < rounds) :
    ∃ after, strlenFrom rounds store address length = .ok (length + bytes.length, after) ∧
    after.memory = store.memory := by
  induction bytes generalizing address store rounds length with
  | nil =>
    obtain ⟨rounds, rfl⟩ := Nat.exists_eq_succ_of_ne_zero (Nat.ne_of_gt enough)
    have terminator : store.memory address = 0 := Option.some.inj (holds 0 (Nat.succ_pos _))
    refine ⟨(store.load address).2, ?_, rfl⟩
    simp only [strlenFrom, Store.load, terminator, if_true]
    rfl
  | cons byte bytes ih =>
    obtain ⟨rounds, rfl⟩ := Nat.exists_eq_succ_of_ne_zero
      (Nat.ne_of_gt (Nat.lt_of_le_of_lt (Nat.zero_le _) enough))
    have first : store.memory address = byte := Option.some.inj (holds 0 (Nat.succ_pos _))
    have nonzero : byte ≠ 0 := fun zero => clean (zero ▸ List.mem_cons_self)
    have behind : (store.load address).2.memory.HoldsBytes (address + 1) (bytes ++ [0]) := by
      intro index inside
      have next := holds (index + 1) (Nat.succ_lt_succ inside)
      rwa [← Nat.add_assoc, Nat.add_right_comm] at next
    obtain ⟨after, done, kept⟩ := @ih (store.load address).2 (address + 1) rounds (length + 1)
      (fun member => clean (List.mem_cons_of_mem _ member)) behind (Nat.lt_of_succ_lt_succ enough)
    refine ⟨after, ?_, kept⟩
    have unfolded : strlenFrom (rounds + 1) store address length =
        if store.memory address = 0 then .ok (length, (store.load address).2)
        else strlenFrom rounds (store.load address).2 (address + 1) (length + 1) := rfl
    rw [unfolded, first, if_neg nonzero, done, List.length_cons, Nat.add_right_comm, Nat.add_assoc]

theorem strlen_spec (holds : store.memory.HoldsString address string)
    (short : string.length < memorySize) :
    ∃ after, strlen store address = .ok (string.length, after) ∧ after.memory = store.memory := by
  obtain ⟨after, done, kept⟩ :=
    @strlenFrom_spec store address string.bytes memorySize 0 string.property holds short
  rw [Nat.zero_add] at done
  exact ⟨after, done, kept⟩

/-- Each call takes one token, and the one after the last ends the count. -/
theorem countArguments_spec {rounds argc : Nat}
    (scanning : Scanning store str delim string delims place)
    (inside : place ≤ string.length) (between : Between (delimits delims) string.bytes place)
    (apart : str + string.length < delim ∨ delim + delims.length < str)
    (enough : (tokenStarts (delimits delims) string.bytes place).length < rounds) :
    ∃ after, Shell.countArguments delim rounds store (str + place) argc =
        .ok (argc + (tokenStarts (delimits delims) string.bytes place).length, after) ∧
      ∀ other, other < str ∨ str + string.length ≤ other →
      after.memory other = store.memory other := by
  induction rounds generalizing place store argc with
  | zero => exact absurd enough (Nat.not_lt_zero _)
  | succ rounds ih =>
    obtain ⟨result, next, middle, call, step⟩ := strtokR_step scanning inside between apart
    have frame (other : Nat) (outside : other < str ∨ str + string.length ≤ other) :
      middle.memory other = store.memory other :=
      step.frame other (by omega)
    rcases step.result with ⟨nothing, _, rfl⟩ | ⟨start, starts, rfl, _⟩
    · refine ⟨middle, ?_, frame⟩
      rw [Shell.countArguments, call, nothing]
      rfl
    · rw [starts, List.length_cons] at enough ⊢
      obtain ⟨after, rest, later⟩ :=
        @ih middle next (argc + 1) step.scanning step.inside step.between
          (Nat.lt_of_succ_lt_succ enough)
      refine ⟨after, ?_, fun other outside => (later other outside).trans (frame other outside)⟩
      rw [Shell.countArguments, call]
      simp only [bind, Except.bind]
      rw [rest, Nat.add_assoc, Nat.add_comm 1]

theorem Scanning.frame {after : Store} (scanning : Scanning store str delim string delims place)
    (same : ∀ other, Readable str delim string delims other →
      after.memory other = store.memory other) :
    Scanning after str delim string delims place := by
  refine ⟨?_, ?_, ?_, scanning.short⟩
  · intro index above below
    rw [same _ (.inl ⟨Nat.le_add_right _ _, by omega⟩)]
    exact scanning.bytes index above below
  · rw [same _ (.inl ⟨Nat.le_add_right _ _, by omega⟩)]
    exact scanning.terminator
  · intro index below
    have length : (delims.bytes ++ [0]).length = delims.length + 1 := List.length_append
    rw [same _ (.inr ⟨Nat.le_add_right _ _, by omega⟩)]
    exact scanning.given index below

theorem putWord_frame {block count : Nat} {value : Nat} (above : block ≤ address)
    (below : address + 4 ≤ block + count)
    (line : Separate block count str (string.length + 1))
    (set : Separate block count delim (delims.length + 1)) (other : Nat)
    (readable : Readable str delim string delims other) :
    (store.putWord address value).memory other = store.memory other := by
  have agree : Memory.Agree store.memory (store.memory.store address value) other (other + 1) := by
    apply Memory.store_agree
    unfold Separate at line set
    rcases readable with ⟨first, last⟩ | ⟨first, last⟩ <;> omega
  exact agree other (Nat.le_refl _) (Nat.lt_succ_self _)

/-- The words from an index on become the pointers to the tokens that are left, in front of the null
pointer. -/
theorem storeArguments_spec {argv remaining index count : Nat}
    (scanning : Scanning store str delim string delims place)
    (inside : place ≤ string.length) (between : Between (delimits delims) string.bytes place)
    (apart : str + string.length < delim ∨ delim + delims.length < str)
    (small : str + string.length < 2 ^ 32)
    (all : (tokenStarts (delimits delims) string.bytes place).length = remaining)
    (total : index + remaining + 1 = count)
    (line : Separate argv (4 * count) str (string.length + 1))
    (set : Separate argv (4 * count) delim (delims.length + 1))
    (last : store.memory.load (argv + 4 * (index + remaining)) = 0) :
    ∃ after, Shell.storeArguments delim argv remaining store (str + place) index = .ok after ∧
      after.memory.HoldsWords (argv + 4 * index) ((tokenStarts (delimits delims) string.bytes place).map (str + ·) ++ [0]) ∧
        Memory.Agree store.memory after.memory argv (argv + 4 * index) := by
  induction remaining generalizing place store index with
  | zero =>
    rw [List.length_eq_zero_iff.mp all]
    exact ⟨store, rfl, ⟨last, trivial⟩, fun _ _ _ => rfl⟩
  | succ remaining ih =>
    obtain ⟨result, next, middle, call, step⟩ := strtokR_step scanning inside between apart
    rcases step.result with ⟨nothing, _, _⟩ | ⟨start, starts, rfl, delivered⟩
    · rw [nothing] at all
      cases all
    rw [starts, List.length_cons] at all
    have bound : start < string.length := by
      have member : start ∈ tokenStarts (delimits delims) string.bytes place :=
        starts ▸ List.mem_cons_self
      obtain ⟨_, marked⟩ := mem_tokenStarts.mp member
      by_contra beyond
      rw [startsToken, List.getElem?_eq_none (Nat.le_of_not_lt beyond)] at marked
      cases marked
    have outside : Memory.Agree store.memory middle.memory argv (argv + 4 * count) := by
      intro other above below
      unfold Separate at line
      exact step.frame other (by omega)
    have stored : Memory.Agree middle.memory (middle.putWord (argv + 4 * index) (str + start)).memory argv (argv + 4 * index) :=
      Memory.store_agree _ (.inl (Nat.le_refl _))
    have still : (middle.putWord (argv + 4 * index) (str + start)).memory.load
      (argv + 4 * (index + 1 + remaining)) = 0 := by
      rw [← last, Nat.add_assoc index, Nat.add_comm 1, ← outside.load (by omega) (by omega)]
      exact Memory.load_store_other _ (by omega)
    obtain ⟨after, done, words, kept⟩ := @ih _ next (index + 1)
      (step.scanning.frame (putWord_frame (Nat.le_add_right _ _) (by omega) line set)) step.inside step.between
      (Nat.succ.inj all) (by omega) still
    refine ⟨after, ?_, ?_, ?_⟩
    · rw [Shell.storeArguments, call]
      exact done
    · rw [starts]
      refine ⟨?_, words⟩
      rw [kept.load (by omega) (by omega)]
      exact (Memory.load_store_same _ _ _).trans (Nat.mod_eq_of_lt (by omega))
    · refine ((outside.mono (Nat.le_refl _) (by omega)).trans stored).trans (kept.mono (Nat.le_refl _) (by omega))

def CString.behind (string : CString) (place : Nat) : CString :=
  ⟨string.bytes.drop place, fun member => string.property (List.mem_of_mem_drop member)⟩

theorem behind_length (string : CString) (place : Nat) :
    (CString.behind string place).length = string.length - place := List.length_drop

private theorem Scanning.copied {after : Store} {clone : Nat}
    (scanning : Scanning store str delim string delims place)
    (inside : place ≤ string.length)
    (memory : after.memory = store.memory.copy clone (str +
      place) ((CString.behind string place).length + 1))
    (set : Separate clone ((CString.behind string place).length + 1) delim (delims.length + 1)) :
    Scanning after clone delim (CString.behind string place) delims 0 := by
  rw [behind_length] at memory set
  have copied (index : Nat) (below : index ≤ string.length - place) : after.memory (clone + index) =
    store.memory (str + (place + index)) := by
    rw [memory, Memory.copy, if_pos ⟨Nat.le_add_right _ _,
      by omega⟩, Nat.add_sub_cancel_left, Nat.add_assoc]
  refine ⟨?_, ?_, ?_, Nat.lt_of_le_of_lt ?_ scanning.short.1, scanning.short.2⟩
  · intro index _ below
    rw [behind_length] at below
    have there := scanning.bytes (place + index) (Nat.le_add_right _ _) (by omega)
    rw [copied index (Nat.le_of_lt below), ← there]
    exact List.getElem?_drop
  · rw [behind_length, copied _ (Nat.le_refl _), Nat.add_sub_cancel' inside]
    exact scanning.terminator
  · intro index below
    have length : (delims.bytes ++ [0]).length = delims.length + 1 := List.length_append
    unfold Separate at set
    rw [memory, Memory.copy, if_neg (by omega)]
    exact scanning.given index below
  · rw [behind_length]
    exact Nat.sub_le _ _

/-- Two blocks for the copy and for the arguments, when what is left of the line starts at a
place. -/
structure Shell.Blocks (str delim clone argv count : Nat) (string delims : CString)
    (place : Nat) : Prop where
  cloneLine : Separate clone (string.length - place + 1) str (string.length + 1)
  cloneSet : Separate clone (string.length - place + 1) delim (delims.length + 1)
  argvLine : Separate argv (4 * (count + 1)) str (string.length + 1)
  argvSet : Separate argv (4 * (count + 1)) delim (delims.length + 1)

/-- The two loops of `main`, over a copy of so many bytes and over the line itself, store these
words. -/
def Shell.Fills (store : Store) (delim program saveptr clone argv size : Nat)
    (words : List Nat) : Prop :=
  ∃ argc counted after, countArguments delim memorySize (store.memcpy clone saveptr size) clone 1 =
    .ok (argc, counted) ∧
    storeArguments delim argv (argc - 1) ((counted.putWord argv program).putWord (argv + 4 * argc) 0) saveptr 1 = .ok after ∧
      argc = words.length ∧ after.memory.HoldsWords argv (words ++ [0])

theorem fills_spec {start argv clone : Nat}
    (scanning : Scanning store str delim string delims place)
    (inside : place ≤ string.length) (between : Between (delimits delims) string.bytes place)
    (apart : str + string.length < delim ∨ delim + delims.length < str)
    (small : str + string.length < 2 ^ 32)
    (before : start ≤ string.length)
    (blocks : Shell.Blocks str delim clone argv ((tokenStarts (delimits delims) string.bytes place).length + 1) string delims place) :
    Shell.Fills store delim (str + start) (str + place) clone argv (string.length - place + 1)
      ((start :: tokenStarts (delimits delims) string.bytes place).map (str + ·)) := by
  obtain ⟨cloneLine, cloneSet, argvLine, argvSet⟩ := blocks
  obtain ⟨tokens, number⟩ : ∃ tokens,
    tokens = (tokenStarts (delimits delims) string.bytes place).length := ⟨_, rfl⟩
  rw [← number] at argvLine argvSet
  have shorter := behind_length string place
  have copy : Scanning (store.memcpy clone (str + place) (string.length - place + 1)) clone delim
    (CString.behind string place) delims 0 :=
    scanning.copied inside (by rw [shorter]; rfl) (by rwa [shorter])
  have counted : (tokenStarts (delimits delims) (CString.behind string place).bytes 0).length = tokens := by
    rw [number, ← tokenStarts_drop between, List.length_map]
    rfl
  have few : tokens ≤ string.length := by
    rw [number, tokenStarts]
    refine Nat.le_trans (List.length_filter_le _ _) ?_
    rw [List.length_range']
    exact Nat.sub_le _ _
  obtain ⟨second, count, frame⟩ :=
    @countArguments_spec _ clone delim 0 (CString.behind string place) delims memorySize 1 copy
    (Nat.zero_le _) (.inl rfl) (by unfold Separate at cloneSet; omega) (by rw [counted]; exact Nat.lt_of_le_of_lt few scanning.short.1)
  rw [counted, Nat.add_zero] at count
  have untouched (other : Nat) (readable : Readable str delim string delims other) :
    second.memory other = store.memory other := by
    unfold Separate at cloneLine cloneSet
    have outside : other < clone ∨ clone + (string.length - place + 1) ≤ other := by
      rcases readable with ⟨above, below⟩ | ⟨above, below⟩ <;> omega
    have copied : (store.memcpy clone (str + place) (string.length - place + 1)).memory =
        store.memory.copy clone (str + place) (string.length - place + 1) := rfl
    rw [frame other (by omega), copied, Memory.copy, if_neg (by omega)]
  obtain ⟨third, putProgram⟩ : ∃ third, third = (second.putWord argv (str + start)).putWord
    (argv + 4 * (1 + tokens)) 0 := ⟨_, rfl⟩
  have again : Scanning third str delim string delims place := by
    rw [putProgram]
    refine ((scanning.frame untouched).frame (putWord_frame (Nat.le_refl argv) ?_ argvLine argvSet)).frame
      (putWord_frame (Nat.le_add_right argv _) ?_ argvLine argvSet)
    · omega
    · omega
  obtain ⟨after, done, words, kept⟩ :=
    @storeArguments_spec third str delim place string delims argv tokens 1
      (tokens + 1 + 1) again inside
    between apart small number.symm (by omega) argvLine argvSet (by
      rw [putProgram]
      exact (Memory.load_store_same _ _ _).trans (Nat.zero_mod _))
  refine ⟨1 + tokens, second, after, count, ?_, ?_, ?_, words⟩
  · rw [← putProgram, Nat.add_sub_cancel_left]
    exact done
  · rw [List.length_map, List.length_cons, number, Nat.add_comm]
  · rw [kept.load (Nat.le_refl _) (Nat.le_refl _), putProgram]
    have stored := Memory.load_store_same second.memory argv (str + start)
    rw [Nat.mod_eq_of_lt (by omega)] at stored
    exact (Memory.load_store_other _ (by omega)).trans stored

end

end PicoOs.Userland
