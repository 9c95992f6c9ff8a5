import PicoOs.Library.Elf

/-! What a linker makes of a section of an object file when it places the section: a relocation
adds the address of its symbol to a word of the section. -/

namespace PicoOs.Library

def overwrite (bytes : List UInt8) (offset : Nat) (value : List UInt8) : List UInt8 :=
  bytes.take offset ++ value ++ bytes.drop (offset + value.length)

def addWord (bytes : List UInt8) (patch : Nat × UInt32) : List UInt8 :=
  overwrite bytes patch.1 (word (patch.2 + wordAt bytes patch.1))

def WordsApart (first last : Nat) : Prop := first + 4 ≤ last ∨ last + 4 ≤ first

section
variable {bytes value : List UInt8} {offset position count : Nat} {patches : List (Nat × UInt32)}
  {patch : Nat × UInt32}

theorem length_overwrite (inside : offset + value.length ≤ bytes.length) :
    (overwrite bytes offset value).length = bytes.length := by
  simp only [overwrite, List.length_append, List.length_take, List.length_drop]
  omega

theorem byteAt_overwrite_other (inside : offset + value.length ≤ bytes.length)
    (apart : position < offset ∨ offset + value.length ≤ position) :
    byteAt (overwrite bytes offset value) position = byteAt bytes position := by
  have front : (bytes.take offset).length = offset := by rw [List.length_take]; omega
  rw [byteAt, byteAt, List.getD_eq_getElem?_getD, List.getD_eq_getElem?_getD, overwrite,
    List.append_assoc]
  obtain before | behind := apart
  · rw [List.getElem?_append_left (by omega), List.getElem?_take_of_lt before]
  · have same : offset + value.length + (position - (bytes.take offset).length - value.length) =
      position := by omega
    rw [List.getElem?_append_right (by omega), List.getElem?_append_right (by omega), List.getElem?_drop, same]

theorem wordAt_overwrite (inside : offset ≤ bytes.length) (value : UInt32) :
    wordAt (overwrite bytes offset (word value)) offset = value := by
  have front : (bytes.take offset).length = offset := by rw [List.length_take]; omega
  rw [overwrite, List.append_assoc, wordAt_skip (by omega), front, Nat.sub_self, wordAt_word]

theorem wordAt_congr {other : List UInt8}
    (same : ∀ index < 4, byteAt bytes (offset + index) = byteAt other (position + index)) :
    wordAt bytes offset = wordAt other position := by
  rw [wordAt, wordAt, same 1 (by decide), same 2 (by decide), same 3 (by decide)]
  exact congrArg (fun first => UInt32.ofNat (first + _ + _ + _)) (same 0 (by decide))

theorem byteAt_excerpt (inside : position < count) :
    byteAt (excerpt bytes offset count) position = byteAt bytes (offset + position) := by
  rw [byteAt, byteAt, List.getD_eq_getElem?_getD, List.getD_eq_getElem?_getD, excerpt,
    List.getElem?_take_of_lt inside, List.getElem?_drop]

theorem wordAt_excerpt (inside : position + 4 ≤ count) :
    wordAt (excerpt bytes offset count) position = wordAt bytes (offset + position) :=
  wordAt_congr fun index small => by rw [byteAt_excerpt (by omega), Nat.add_assoc]

theorem length_addWord (inside : patch.1 + 4 ≤ bytes.length) :
    (addWord bytes patch).length = bytes.length := length_overwrite inside

theorem length_addWords (inside : ∀ patch ∈ patches, patch.1 + 4 ≤ bytes.length) :
    (patches.foldl addWord bytes).length = bytes.length := by
  induction patches generalizing bytes with
  | nil => rfl
  | cons first patches ih =>
    obtain ⟨here, later⟩ := List.forall_mem_cons.mp inside
    have length := length_addWord here
    rw [List.foldl_cons, ih (length.symm ▸ later), length]

/-- A byte that no patch changes. -/
theorem byteAt_addWords_other (inside : ∀ patch ∈ patches, patch.1 + 4 ≤ bytes.length)
    (apart : ∀ patch ∈ patches, position < patch.1 ∨ patch.1 + 4 ≤ position) :
    byteAt (patches.foldl addWord bytes) position = byteAt bytes position := by
  induction patches generalizing bytes with
  | nil => rfl
  | cons first patches ih =>
    obtain ⟨here, later⟩ := List.forall_mem_cons.mp inside
    obtain ⟨away, others⟩ := List.forall_mem_cons.mp apart
    have length := length_addWord here
    have kept : byteAt (addWord bytes first) position = byteAt bytes position :=
      byteAt_overwrite_other here away
    rw [List.foldl_cons, ih (length.symm ▸ later) others, kept]

theorem wordAt_addWords_other (inside : ∀ patch ∈ patches, patch.1 + 4 ≤ bytes.length)
    (apart : ∀ patch ∈ patches, WordsApart offset patch.1) :
    wordAt (patches.foldl addWord bytes) offset = wordAt bytes offset :=
  wordAt_congr fun index small => byteAt_addWords_other inside fun patch member => by
    have away := apart patch member
    unfold WordsApart at away
    omega

/-- A word that one patch changes. -/
theorem wordAt_addWords (inside : ∀ patch ∈ patches, patch.1 + 4 ≤ bytes.length)
    (apart : patches.Pairwise fun first last => WordsApart first.1 last.1)
    (member : patch ∈ patches) :
    wordAt (patches.foldl addWord bytes) patch.1 = patch.2 + wordAt bytes patch.1 := by
  induction patches generalizing bytes with
  | nil => cases member
  | cons first patches ih =>
    obtain ⟨here, later⟩ := List.forall_mem_cons.mp inside
    obtain ⟨away, others⟩ := List.pairwise_cons.mp apart
    have length := length_addWord here
    have still : ∀ patch ∈ patches, patch.1 + 4 ≤ (addWord bytes first).length :=
      length.symm ▸ later
    rw [List.foldl_cons]
    obtain rfl | further := List.mem_cons.mp member
    · have written : wordAt (addWord bytes patch) patch.1 = patch.2 + wordAt bytes patch.1 :=
        wordAt_overwrite (by omega) _
      rw [wordAt_addWords_other still away, written]
    · have kept : wordAt (addWord bytes first) patch.1 = wordAt bytes patch.1 := by
        have apart := away patch further
        unfold WordsApart at apart
        exact wordAt_congr fun index small =>
          byteAt_overwrite_other here (by rw [length_word]; omega)
      rw [ih still others further, kept]

end

namespace Elf

/-- `SHT_REL` and `SHT_SYMTAB` -/
def relocationTable : UInt32 := 9
def symbolTable : UInt32 := 2

/-- `R_ARM_ABS32` -/
def absolute : Nat := 2

section
variable (file : List UInt8)

def sectionCount : Nat := (fileHeader file).shnum.toNat

def sectionNamed (name : List UInt8) : Option Nat :=
  (List.range (sectionCount file)).find? fun index => sectionName file index = some name

/-- The number of entries of a section that holds an array. -/
def entryCount (table : Nat) : Nat :=
  (sectionBytes file table).length / (sectionHeader file table).entsize.toNat

def symbolsOf : Option Nat := (List.range (sectionCount file)).find?
    fun index => (sectionHeader file index).type = symbolTable

def symbolNamed (table : Nat) (name : List UInt8) : Option Nat :=
  (List.range (entryCount file table)).find? fun index => symbolName file table index = some name

/-- The sections that hold the relocations of a section. -/
def relocationsOf (target : Nat) : List Nat :=
  (List.range (sectionCount file)).filter fun index =>
    (sectionHeader file index).type = relocationTable ∧
      (sectionHeader file index).info.toNat = target

variable (target base : Nat)

/-- The address of a symbol, when the section is placed at the base. Symbols of other sections
are given by their value. -/
def symbolAddress (symbol : Sym) : Nat := if symbol.shndx.toNat = target then base + symbol.value.toNat else symbol.value.toNat

/-- The symbol's address is added to what is in place. -/
def relocate (table : Nat) (bytes : List UInt8) (relocation : Rel) : List UInt8 :=
  if typeOf relocation.info = absolute then
    let symbol := symbolAt file (sectionHeader file table).link.toNat (symbolOf relocation.info)
    addWord bytes (relocation.offset.toNat, .ofNat (symbolAddress target base symbol))
  else bytes

def relocateAll (bytes : List UInt8) (table : Nat) : List UInt8 :=
  ((List.range (entryCount file table)).map (entryOf file table)).foldl
    (relocate file target base table) bytes

/-- The bytes of the section at the base. -/
def linkedSection : List UInt8 :=
  (relocationsOf file target).foldl (relocateAll file target base) (sectionBytes file target)

end
end Elf
end PicoOs.Library
