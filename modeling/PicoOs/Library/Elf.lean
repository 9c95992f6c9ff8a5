import PicoOs.Library.Blocks

/-! Object files of the 32-bit ELF format, little-endian: the records they consist of, and how
a reader finds the sections, symbols and relocations of a file from its header. -/

namespace PicoOs.Library

def byteAt (bytes : List UInt8) (offset : Nat) : Nat := (bytes.getD offset 0).toNat

def halfAt (bytes : List UInt8) (offset : Nat) : UInt16 :=
  .ofNat (byteAt bytes offset + 2 ^ 8 * byteAt bytes (offset + 1))

def wordAt (bytes : List UInt8) (offset : Nat) : UInt32 :=
  .ofNat (byteAt bytes offset + 2 ^ 8 * byteAt bytes (offset + 1) + 2 ^ 16 * byteAt bytes (offset + 2) + 2 ^ 24 * byteAt bytes (offset + 3))

def half (value : UInt16) : List UInt8 := [.ofNat value.toNat, .ofNat (value.toNat / 2 ^ 8)]

def word (value : UInt32) : List UInt8 :=
  [.ofNat value.toNat, .ofNat (value.toNat / 2 ^ 8), .ofNat (value.toNat / 2 ^ 16),
    .ofNat (value.toNat / 2 ^ 24)]

@[simp] theorem length_half (value : UInt16) : (half value).length = 2 := rfl

@[simp] theorem length_word (value : UInt32) : (word value).length = 4 := rfl

section
variable {first rest : List UInt8} {offset : Nat}

theorem byteAt_skip (behind : first.length ≤ offset) :
    byteAt (first ++ rest) offset = byteAt rest (offset - first.length) := by
  simp only [byteAt, List.getD_eq_getElem?_getD, List.getElem?_append_right behind]

theorem halfAt_skip (behind : first.length ≤ offset) :
    halfAt (first ++ rest) offset = halfAt rest (offset - first.length) := by
  rw [halfAt, byteAt_skip behind, byteAt_skip (Nat.le_succ_of_le behind), Nat.succ_sub behind]
  rfl

theorem wordAt_skip (behind : first.length ≤ offset) :
    wordAt (first ++ rest) offset = wordAt rest (offset - first.length) := by
  have shift (further : Nat) : byteAt (first ++ rest) (offset + further) =
    byteAt rest (offset - first.length + further) := by
    rw [byteAt_skip (Nat.le_add_right_of_le behind), Nat.sub_add_comm behind]
  rw [wordAt, byteAt_skip behind, shift, shift, shift]
  rfl

theorem half_value (value : UInt16) :
    UInt16.ofNat ((UInt8.ofNat value.toNat).toNat + 2 ^ 8 *
      (UInt8.ofNat (value.toNat / 2 ^ 8)).toNat) = value := by
  have small := value.toNat_lt
  apply UInt16.toNat.inj
  simp only [UInt16.toNat_ofNat', UInt8.toNat_ofNat']
  omega

theorem word_value (value : UInt32) :
    UInt32.ofNat ((UInt8.ofNat value.toNat).toNat + 2 ^ 8 *
      (UInt8.ofNat (value.toNat / 2 ^ 8)).toNat +
      2 ^ 16 * (UInt8.ofNat (value.toNat / 2 ^ 16)).toNat + 2 ^ 24 *
        (UInt8.ofNat (value.toNat / 2 ^ 24)).toNat) = value := by
  have small := value.toNat_lt
  apply UInt32.toNat.inj
  simp only [UInt32.toNat_ofNat', UInt8.toNat_ofNat']
  omega

@[simp] theorem halfAt_half (value : UInt16) (rest : List UInt8) :
    halfAt (half value ++ rest) 0 = value := half_value value

@[simp] theorem halfAt_last (value : UInt16) : halfAt (half value) 0 = value := half_value value

@[simp] theorem wordAt_word (value : UInt32) (rest : List UInt8) :
    wordAt (word value ++ rest) 0 = value := word_value value

@[simp] theorem wordAt_last (value : UInt32) : wordAt (word value) 0 = value := word_value value

/-- A field is read behind the ones before it. -/
theorem word_fields (value : UInt32) (rest : List UInt8) (offset : Nat) :
    wordAt (word value ++ rest) (offset + 4) = wordAt rest offset ∧
    halfAt (word value ++ rest) (offset + 4) = halfAt rest offset :=
  ⟨wordAt_skip (Nat.le_add_left _ _), halfAt_skip (Nat.le_add_left _ _)⟩

theorem half_fields (value : UInt16) (rest : List UInt8) (offset : Nat) :
    wordAt (half value ++ rest) (offset + 2) = wordAt rest offset ∧
    halfAt (half value ++ rest) (offset + 2) = halfAt rest offset :=
  ⟨wordAt_skip (Nat.le_add_left _ _), halfAt_skip (Nat.le_add_left _ _)⟩

end

/-- A type whose values are stored in a fixed number of bytes. -/
class Record (α : Type) where
  size : Nat
  encode : α → List UInt8
  decode : List UInt8 → α
  length_encode : ∀ value, (encode value).length = size
  decode_encode : ∀ value, decode (encode value) = value

namespace Record
variable {α : Type} [Record α]

attribute [simp] length_encode decode_encode

/-- The record that is stored at an offset. -/
def read (file : List UInt8) (offset : Nat) : α := decode (excerpt file offset (size α))

def encodeAll (values : List α) : List UInt8 := (values.map encode).flatten

theorem encodeAll_append (values more : List α) :
    encodeAll (values ++ more) = encodeAll values ++ encodeAll more := by
  rw [encodeAll, List.map_append, List.flatten_append]
  rfl

theorem uniform (values : List α) : ∀ block ∈ values.map encode, block.length = size α := by
  intro block member
  obtain ⟨value, _, rfl⟩ := List.mem_map.mp member
  exact length_encode value

theorem length_encodeAll (values : List α) :
    (encodeAll values).length = values.length * size α := by
  rw [encodeAll, ← blockStart_length, blockStart_uniform (uniform values) (Nat.le_refl _),
    List.length_map]

theorem read_encodeAll {values : List α} {value : α} {index : Nat}
    (there : values[index]? = some value) :
    read (encodeAll values) (index * size α) = value := by
  have block : (values.map encode)[index]? = some (encode value) := by
    rw [List.getElem?_map, there]; rfl
  obtain ⟨inside, _⟩ := List.getElem?_eq_some_iff.mp block
  have found := excerpt_block block
  rw [blockStart_uniform (uniform values) (Nat.le_of_lt inside), length_encode] at found
  rw [read, encodeAll, found, decode_encode]

end Record

namespace Elf

structure Ehdr where
  ident : Fin 16 → UInt8
  type : UInt16
  machine : UInt16
  version : UInt32
  entry : UInt32
  phoff : UInt32
  shoff : UInt32
  flags : UInt32
  ehsize : UInt16
  phentsize : UInt16
  phnum : UInt16
  shentsize : UInt16
  shnum : UInt16
  shstrndx : UInt16

structure Phdr where
  type : UInt32
  offset : UInt32
  vaddr : UInt32
  paddr : UInt32
  filesz : UInt32
  memsz : UInt32
  flags : UInt32
  align : UInt32
  deriving DecidableEq

structure Shdr where
  name : UInt32
  type : UInt32
  flags : UInt32
  addr : UInt32
  offset : UInt32
  size : UInt32
  link : UInt32
  info : UInt32
  addralign : UInt32
  entsize : UInt32
  deriving DecidableEq

structure Sym where
  name : UInt32
  value : UInt32
  size : UInt32
  info : UInt8
  other : UInt8
  shndx : UInt16
  deriving DecidableEq

structure Rel where
  offset : UInt32
  info : UInt32
  deriving DecidableEq

structure Rela where
  offset : UInt32
  info : UInt32
  addend : UInt32
  deriving DecidableEq

instance : Record Ehdr where
  size := 52
  encode header := List.ofFn header.ident ++ half header.type ++ half header.machine ++
    word header.version ++ word header.entry ++
    word header.phoff ++ word header.shoff ++ word header.flags ++ half header.ehsize ++
      half header.phentsize ++ half header.phnum ++
    half header.shentsize ++ half header.shnum ++ half header.shstrndx
  decode bytes := ⟨fun index => bytes.getD index 0, halfAt bytes 16, halfAt bytes 18,
    wordAt bytes 20, wordAt bytes 24, wordAt bytes 28,
    wordAt bytes 32, wordAt bytes 36, halfAt bytes 40, halfAt bytes 42, halfAt bytes 44,
      halfAt bytes 46, halfAt bytes 48, halfAt bytes 50⟩
  length_encode header := by simp
  decode_encode header := by
    have ident (rest : List UInt8) : (fun index : Fin 16 => (List.ofFn header.ident ++ rest).getD index 0) = header.ident := by
      funext index
      rw [List.getD_eq_getElem?_getD,
        List.getElem?_append_left (by rw [List.length_ofFn]; exact index.isLt), List.getElem?_ofFn,
        dif_pos index.isLt, Option.getD_some]
    have fields (rest : List UInt8) (offset : Nat) : wordAt (List.ofFn header.ident ++ rest)
      (offset + 16) = wordAt rest offset ∧
        halfAt (List.ofFn header.ident ++ rest) (offset + 16) = halfAt rest offset :=
      ⟨wordAt_skip (by rw [List.length_ofFn]; exact Nat.le_add_left _ _), halfAt_skip (by rw [List.length_ofFn]; exact Nat.le_add_left _ _)⟩
    simp only [List.append_assoc, ident, fields, word_fields, half_fields, wordAt_word,
      halfAt_half, halfAt_last]

instance : Record Phdr where
  size := 32
  encode header := word header.type ++ word header.offset ++ word header.vaddr ++
    word header.paddr ++ word header.filesz ++
    word header.memsz ++ word header.flags ++ word header.align
  decode bytes := ⟨wordAt bytes 0, wordAt bytes 4, wordAt bytes 8, wordAt bytes 12, wordAt bytes 16,
    wordAt bytes 20, wordAt bytes 24,
    wordAt bytes 28⟩
  length_encode header := by simp
  decode_encode header := by
    simp only [List.append_assoc, word_fields, wordAt_word, wordAt_last]

instance : Record Shdr where
  size := 40
  encode header := word header.name ++ word header.type ++ word header.flags ++ word header.addr ++
    word header.offset ++
    word header.size ++ word header.link ++ word header.info ++ word header.addralign ++
      word header.entsize
  decode bytes := ⟨wordAt bytes 0, wordAt bytes 4, wordAt bytes 8, wordAt bytes 12, wordAt bytes 16,
    wordAt bytes 20, wordAt bytes 24,
    wordAt bytes 28, wordAt bytes 32, wordAt bytes 36⟩
  length_encode header := by simp
  decode_encode header := by
    simp only [List.append_assoc, word_fields, wordAt_word, wordAt_last]

instance : Record Sym where
  size := 16
  encode symbol := word symbol.name ++ word symbol.value ++ word symbol.size ++
    [symbol.info, symbol.other] ++ half symbol.shndx
  decode bytes := ⟨wordAt bytes 0, wordAt bytes 4, wordAt bytes 8, bytes.getD 12 0, bytes.getD 13 0,
    halfAt bytes 14⟩
  length_encode symbol := by simp
  decode_encode symbol := by
    simp only [List.append_assoc, word_fields, wordAt_word]
    exact congrArg (Sym.mk _ _ _ _ _) (half_value symbol.shndx)

instance : Record Rel where
  size := 8
  encode relocation := word relocation.offset ++ word relocation.info
  decode bytes := ⟨wordAt bytes 0, wordAt bytes 4⟩
  length_encode relocation := by simp
  decode_encode relocation := by
    simp only [word_fields, wordAt_word, wordAt_last]

instance : Record Rela where
  size := 12
  encode relocation := word relocation.offset ++ word relocation.info ++ word relocation.addend
  decode bytes := ⟨wordAt bytes 0, wordAt bytes 4, wordAt bytes 8⟩
  length_encode relocation := by simp
  decode_encode relocation := by
    simp only [List.append_assoc, word_fields, wordAt_word, wordAt_last]

/-- `ELF32_R_SYM` and `ELF32_R_TYPE` -/
def symbolOf (info : UInt32) : Nat := info.toNat / 2 ^ 8
def typeOf (info : UInt32) : Nat := info.toNat % 2 ^ 8

section
variable (file : List UInt8)

def fileHeader : Ehdr := Record.read file 0

def sectionHeader (index : Nat) : Shdr :=
  Record.read file ((fileHeader file).shoff.toNat + index * (fileHeader file).shentsize.toNat)

def sectionBytes (index : Nat) : List UInt8 :=
  excerpt file (sectionHeader file index).offset.toNat (sectionHeader file index).size.toNat

/-- The entry of a string table. -/
def stringIn (table : Nat) (offset : UInt32) : Option (List UInt8) :=
  readString (sectionBytes file table) offset.toNat

def sectionName (index : Nat) : Option (List UInt8) :=
  stringIn file (fileHeader file).shstrndx.toNat (sectionHeader file index).name

/-- The entry of a section that holds an array. -/
def entryOf {α : Type} [Record α] (table index : Nat) : α :=
  Record.read (sectionBytes file table) (index * (sectionHeader file table).entsize.toNat)

def symbolAt (table index : Nat) : Sym := entryOf file table index

/-- The name of a symbol is in the string table that its section is linked to. -/
def symbolName (table index : Nat) : Option (List UInt8) :=
  stringIn file (sectionHeader file table).link.toNat (symbolAt file table index).name

end
end Elf
end PicoOs.Library
