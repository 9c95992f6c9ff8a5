import PicoOs.Library.Memory

/-! Strings and arrays of words in memory, as programs written in C find them. -/

namespace PicoOs.Library

/-- A string without the terminator that follows it in memory. -/
def CString : Type := { bytes : List UInt8 // 0 ∉ bytes }

namespace CString

def bytes (string : CString) : List UInt8 := string.val

/-- `strlen` -/
def length (string : CString) : Nat := string.bytes.length

instance : DecidableEq CString := inferInstanceAs (DecidableEq { bytes : List UInt8 // 0 ∉ bytes })

end CString

namespace Memory
variable {before after : Memory} {address : Nat}

def writeBytes (memory : Memory) (address : Nat) (bytes : List UInt8) : Memory := fun other =>
  if address ≤ other then (bytes[other - address]?).getD (memory other) else memory other

def strcpy (memory : Memory) (destination : Nat) (string : CString) : Memory :=
  memory.writeBytes destination (string.bytes ++ [0])

def HoldsBytes (memory : Memory) (address : Nat) (bytes : List UInt8) : Prop :=
  ∀ index, index < bytes.length → some (memory (address + index)) = bytes[index]?

def HoldsString (memory : Memory) (address : Nat) (string : CString) : Prop :=
  memory.HoldsBytes address (string.bytes ++ [0])

def HoldsWords (memory : Memory) : Nat → List Nat → Prop
  | _, [] => True
  | address, word :: words => memory.load address = word ∧ memory.HoldsWords (address + 4) words

/-- An array of pointers to the strings, with a null pointer behind it. -/
def HoldsStrings (memory : Memory) : Nat → List CString → Prop
  | address, [] => memory.load address = 0
  | address, string :: strings =>
      memory.load address ≠ 0 ∧ memory.HoldsString (memory.load address) string ∧
      memory.HoldsStrings (address + 4) strings

def AgreeFrom (before after : Memory) (start : Nat) : Prop :=
  ∀ address, start ≤ address → after address = before address

def wordAreas (address count : Nat) : List Area :=
  (List.range count).map fun index => ⟨address + 4 * index, 4⟩

/-- Where the strings lie that an array points to, with their terminators. -/
def stringAreas (memory : Memory) : Nat → List CString → List Area
  | _, [] => []
  | address, string :: strings =>
      ⟨memory.load address, string.length + 1⟩ :: memory.stringAreas (address + 4) strings

namespace AgreeFrom

theorem refl (memory : Memory) (start : Nat) : AgreeFrom memory memory start := fun _ _ => rfl

theorem trans {middle : Memory} {first second : Nat} (earlier : AgreeFrom before middle first)
    (later : AgreeFrom middle after second) (le : second ≤ first) : AgreeFrom before after first :=
  fun address above => (later address (le.trans above)).trans (earlier address above)

theorem load {start : Nat} (agree : AgreeFrom before after start) (above : start ≤ address) :
    after.load address = before.load address := by
  have bytes : Agree before after address (address + 4) :=
    fun other first _ => agree other (above.trans first)
  exact bytes.load (Nat.le_refl _) (Nat.le_refl _)

theorem holdsBytes {start : Nat} {bytes : List UInt8} (agree : AgreeFrom before after start)
    (above : start ≤ address)
    (holds : before.HoldsBytes address bytes) : after.HoldsBytes address bytes := by
  intro index inside
  rw [agree _ (above.trans (Nat.le_add_right _ _))]
  exact holds index inside

theorem holdsWords {start : Nat} {words : List Nat} (agree : AgreeFrom before after start)
    (above : start ≤ address)
    (holds : before.HoldsWords address words) : after.HoldsWords address words := by
  induction words generalizing address with
  | nil => trivial
  | cons word words ih =>
    obtain ⟨first, rest⟩ := holds
    exact ⟨(agree.load above).trans first, ih (above.trans (Nat.le_add_right _ _)) rest⟩

end AgreeFrom

theorem HoldsBytes.take {memory : Memory} {bytes : List UInt8}
    (holds : memory.HoldsBytes address bytes) (count : Nat) :
    memory.HoldsBytes address (bytes.take count) := by
  intro index inside
  rw [List.length_take, Nat.lt_min] at inside
  rw [List.getElem?_take, if_pos inside.1]
  exact holds index inside.2

/-- One more byte behind those that are there. -/
theorem HoldsBytes.write {memory : Memory} {bytes : List UInt8}
    (holds : memory.HoldsBytes address bytes) (value : UInt8) :
    (memory.write (address + bytes.length) value).HoldsBytes address (bytes ++ [value]) := by
  intro index inside
  rw [List.length_append, List.length_singleton] at inside
  rcases Nat.lt_or_eq_of_le (Nat.lt_succ_iff.mp inside) with earlier | rfl
  · rw [List.getElem?_append_left earlier, Memory.write, if_neg (by omega)]
    exact holds index earlier
  · rw [List.getElem?_concat_length, Memory.write, if_pos rfl]

theorem writeBytes_holds (memory : Memory) (address : Nat) (bytes : List UInt8) :
    (memory.writeBytes address bytes).HoldsBytes address bytes := by
  intro index inside
  unfold writeBytes
  rw [if_pos (Nat.le_add_right _ _), Nat.add_sub_cancel_left, List.getElem?_eq_getElem inside,
    Option.getD_some]

theorem writeBytes_agree (memory : Memory) (address : Nat) (bytes : List UInt8) {start : Nat}
    (above : address + bytes.length ≤ start) :
    AgreeFrom memory (memory.writeBytes address bytes) start := by
  intro other behind
  unfold writeBytes
  split
  next => rw [List.getElem?_eq_none (by omega), Option.getD_none]
  next => rfl

theorem writeBytes_apart (memory : Memory) {address start stop : Nat} {bytes : List UInt8}
    (apart : stop ≤ address ∨ address + bytes.length ≤ start) :
    Agree memory (memory.writeBytes address bytes) start stop := by
  intro other above below
  unfold writeBytes
  split
  · rw [List.getElem?_eq_none (by omega)]
    rfl
  · rfl

theorem window_writeBytes (memory : Memory) (address : Nat) (bytes more : List UInt8) :
    (memory.writeBytes address (bytes ++ more)).window address bytes.length = bytes := by
  apply List.ext_getElem (window_length _ _ _)
  intro index inside there
  simp only [window, List.getElem_map, List.getElem_range, writeBytes]
  rw [if_pos (Nat.le_add_right _ _), Nat.add_sub_cancel_left, List.getElem?_append_left there,
    List.getElem?_eq_getElem there]
  rfl

theorem window_fill (memory : Memory) (address count : Nat) (value : UInt8) :
    (memory.fill address value count).window address count = List.replicate count value := by
  apply List.ext_getElem (by rw [window_length, List.length_replicate])
  intro index inside there
  rw [List.length_replicate] at there
  simp only [window, List.getElem_map, List.getElem_range, List.getElem_replicate, fill]
  rw [if_pos ⟨Nat.le_add_right _ _, Nat.add_lt_add_left there _⟩]

theorem store_agreeFrom (memory : Memory) {value start : Nat} (above : address + 4 ≤ start) :
    AgreeFrom memory (memory.store address value) start := by
  intro other behind
  have agree : Agree memory (memory.store address value) other (other + 1) :=
    memory.store_agree (Or.inr (above.trans behind))
  exact agree other (Nat.le_refl _) (Nat.lt_succ_self _)

/-- An array of words that point to strings, and whose last one is null. -/
theorem HoldsWords.strings {memory : Memory} {pointers : List Nat} {strings : List CString}
    (holds : memory.HoldsWords address (pointers ++ [0]))
    (each : List.Forall₂ (fun pointer string => pointer ≠ 0 ∧
      memory.HoldsString pointer string) pointers strings) :
    memory.HoldsStrings address strings := by
  induction each generalizing address with
  | nil => exact holds.1
  | cons first _ ih =>
    obtain ⟨word, rest⟩ := holds
    obtain ⟨nonnull, string⟩ := first
    exact ⟨word ▸ nonnull, word ▸ string, ih rest⟩

theorem HoldsWords.stringAreas {memory : Memory} {pointers words : List Nat}
    {strings : List CString}
    (holds : memory.HoldsWords address (pointers ++ words))
    (count : pointers.length = strings.length) :
    memory.stringAreas address strings = List.zipWith (fun pointer string => ⟨pointer,
      string.length + 1⟩) pointers strings := by
  induction pointers generalizing address strings with
  | nil =>
    obtain rfl := List.length_eq_zero_iff.mp count.symm
    rfl
  | cons pointer pointers ih =>
    cases strings with
    | nil => cases count
    | cons string strings =>
      obtain ⟨first, rest⟩ := holds
      rw [Memory.stringAreas, List.zipWith_cons_cons, first, ih rest (Nat.succ.inj count)]

/-- An array that is filled from its end grows down. -/
theorem wordAreas_descend {boundary : Nat} (even : 4 % boundary = 0)
    (aligned : address % boundary = 0) (count : Nat) :
    Area.Descends boundary (address + 4 * count) (wordAreas address count).reverse address := by
  induction count with
  | zero => exact Nat.le_refl _
  | succ count ih =>
    rw [wordAreas, List.range_succ, List.map_append, List.map_singleton, List.reverse_concat]
    refine ⟨?_, Nat.le_of_eq (by rw [Nat.mul_succ, Nat.add_assoc]), ih⟩
    rw [Nat.add_mod, aligned, Nat.mul_mod, even, Nat.zero_mul, Nat.zero_mod, Nat.zero_mod]

end Memory
end PicoOs.Library
