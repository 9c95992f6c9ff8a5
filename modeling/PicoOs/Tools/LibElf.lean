import PicoOs.Kernel.FileSystem.VirtualFileSystem
import PicoOs.Library.Elf

/-! The generator of object files in `Tools/LibElf`. Sections, string tables and symbols are
kept in streams of their own, which are written when the generator is finalized. -/

namespace PicoOs.Tools
open Library Elf
open Kernel (literal)

/-- What stops the tool. `badIndex` stands for a section that does not exist. -/
inductive ToolFault where
  | assertion
  | badIndex
  deriving DecidableEq

/-- `assert` -/
def check (condition : Prop) [Decidable condition] : Except ToolFault Unit := if condition then .ok () else .error .assertion

/-- `std::optional::value` -/
def valueOf {α : Type} : Option α → Except ToolFault α
  | some value => .ok value
  | none => .error .badIndex

/-- A file with a position, to which writing does not add anything before its bytes are there. -/
structure MemoryStream where
  bytes : List UInt8
  position : Nat

namespace MemoryStream

def empty : MemoryStream := ⟨[], 0⟩

def seek (stream : MemoryStream) (position : Nat) : MemoryStream := { stream with position }

def size (stream : MemoryStream) : Nat := stream.bytes.length

/-- `write_bytes`, with the offset that it returns. What a seek has left out is zero. -/
def writeBytes (stream : MemoryStream) (bytes : List UInt8) : Nat × MemoryStream :=
  if bytes = [] then (stream.position, stream)
  else
    let before := stream.bytes.take stream.position ++ List.replicate
      (stream.position - stream.bytes.length) 0
    (stream.position, ⟨before ++ bytes ++ stream.bytes.drop (stream.position + bytes.length),
      stream.position + bytes.length⟩)

def writeObject {α : Type} [Record α] (stream : MemoryStream) (value : α) : Nat × MemoryStream :=
  stream.writeBytes (Record.encode value)

/-- `write_bytes` of another stream, which is at the same position afterwards. -/
def writeStream (stream other : MemoryStream) : Nat × MemoryStream := stream.writeBytes other.bytes

end MemoryStream

def SHT_NULL : UInt32 := 0
def SHT_PROGBITS : UInt32 := 1
def SHT_SYMTAB : UInt32 := 2
def SHT_STRTAB : UInt32 := 3
def SHT_RELA : UInt32 := 4
def SHT_REL : UInt32 := 9

structure StringTable where
  name : List UInt8
  stream : MemoryStream
  sectionIndex : Option Nat
  finalized : Bool

namespace StringTable

def construct (name : List UInt8) : StringTable :=
  ⟨name, (MemoryStream.empty.writeBytes [0]).2, none, false⟩

def addEntry (table : StringTable) (value : List UInt8) : Nat × StringTable :=
  let (offset, stream) := table.stream.writeBytes value
  (offset, { table with stream := (stream.writeBytes [0]).2 })

end StringTable

structure SymbolTable where
  name : List UInt8
  stringTable : StringTable
  stream : MemoryStream
  nextIndex : Nat
  sectionIndex : Option Nat
  finalized : Bool

/-- `ELF32_ST_BIND` -/
def bindOf (info : UInt8) : UInt8 := info >>> 4

def STB_GLOBAL : UInt8 := 1

/-- `symbol.st_info & ELF32_ST_BIND(0xf) == ELF32_ST_BIND(STB_GLOBAL)`, where the comparison is
made first. -/
def bindAccepted (info : UInt8) : Bool := info &&& (if bindOf 0xf = bindOf STB_GLOBAL then 1 else 0) ≠ 0

namespace SymbolTable

def undefinedSymbol : Sym := ⟨0, 0, 0, 0, 0, 0⟩

def construct (nameSuffix : List UInt8) : SymbolTable :=
  ⟨literal ".symtab" ++ nameSuffix, .construct (literal ".strtab" ++ nameSuffix), (MemoryStream.empty.writeObject undefinedSymbol).2, 1, none, false⟩

def addSymbol (table : SymbolTable) (name : List UInt8) (symbol : Sym) :
    Except ToolFault (Nat × SymbolTable) := do
  check (bindAccepted symbol.info)
  let (offset, stringTable) := table.stringTable.addEntry name
  let (_, stream) := table.stream.writeObject { symbol with name := .ofNat offset }
  .ok (table.nextIndex, { table with stringTable, stream, nextIndex := table.nextIndex + 1 })

def addUndefinedSymbol (table : SymbolTable) (name : List UInt8) (symbol : Sym) :
    Except ToolFault (Nat × SymbolTable) :=
  table.addSymbol name { symbol with shndx := 0 }

end SymbolTable

structure Generator where
  stream : MemoryStream
  sections : List Shdr
  shstrtab : StringTable
  symtab : SymbolTable
  finalized : Bool

namespace Generator

/-- `sizeof(Elf32_Ehdr)` -/
def headerSize : Nat := 52

def undefinedSection : Shdr := ⟨0, SHT_NULL, 0, 0, 0, 0, 0, 0, 0, 0⟩

def createSection (generator : Generator) (name : List UInt8) (type flags : UInt32) :
    Nat × Generator :=
  let (offset, shstrtab) := generator.shstrtab.addEntry name
  let header : Shdr := ⟨.ofNat offset, type, flags, 0, 0, 0, 0, 0, 4, 0⟩
  (generator.sections.length, { generator with shstrtab, sections := generator.sections ++ [header] })

/-- A change through the reference that `section` returns. -/
def modifySection (generator : Generator) (index : Nat) (change : Shdr → Shdr) :
    Except ToolFault Generator := do
  let header ← valueOf generator.sections[index]?
  .ok { generator with sections := generator.sections.set index (change header) }

def writeSection (generator : Generator) (index : Nat) (stream : MemoryStream) :
    Except ToolFault Generator := do
  let offset := generator.stream.position
  let changed ← generator.modifySection index fun header =>
    { header with addr := .ofNat (offset - headerSize), offset := .ofNat offset, size := .ofNat stream.size }
  .ok { changed with stream := (changed.stream.writeStream stream).2 }

/-- `StringTable::initialize` of `m_shstrtab_section`. -/
def initializeShstrtab (generator : Generator) : Generator :=
  let (index, generator) := generator.createSection generator.shstrtab.name SHT_STRTAB 0
  { generator with shstrtab := { generator.shstrtab with sectionIndex := some index } }

/-- `StringTable::initialize` of the table of the symbol names. -/
def initializeStrtab (generator : Generator) : Generator :=
  let (index, generator) := generator.createSection generator.symtab.stringTable.name SHT_STRTAB 0
  { generator with symtab := { generator.symtab with stringTable := { generator.symtab.stringTable with sectionIndex := some index } } }

/-- `SymbolTable::initialize` -/
def initializeSymtab (generator : Generator) : Except ToolFault Generator := do
  let generator := generator.initializeStrtab
  let link ← valueOf generator.symtab.stringTable.sectionIndex
  let (index, generator) := generator.createSection generator.symtab.name SHT_SYMTAB 0
  let generator : Generator :=
    { generator with symtab := { generator.symtab with sectionIndex := some index } }
  generator.modifySection index fun header =>
    { header with entsize := 16, link := .ofNat link, info := 1 }

def construct : Except ToolFault Generator :=
  let generator : Generator :=
    ⟨MemoryStream.empty.seek headerSize, [undefinedSection], .construct (literal ".shstrtab"), .construct [], false⟩
  generator.initializeShstrtab.initializeSymtab

/-- `StringTable::finalize` -/
def finalizeTable (generator : Generator) (table : StringTable) : Except ToolFault Generator := do
  check (table.finalized = false)
  let index ← valueOf table.sectionIndex
  generator.writeSection index table.stream

/-- `SymbolTable::finalize` -/
def finalizeSymtab (generator : Generator) : Except ToolFault Generator := do
  check (generator.symtab.finalized = false)
  let generator ← generator.finalizeTable generator.symtab.stringTable
  let index ← valueOf generator.symtab.sectionIndex
  generator.writeSection index generator.symtab.stream

/-- `encode_sections`, with the offset of the headers. -/
def encodeSections (generator : Generator) : Except ToolFault (Nat × Generator) := do
  let generator ← generator.finalizeSymtab
  let generator ← generator.finalizeTable generator.shstrtab
  let stream := generator.sections.foldl (fun stream header => (stream.writeObject header).2)
    generator.stream
  .ok (generator.stream.position, { generator with stream })

/-- `e_ident`, of which the last bytes are not assigned. -/
def identification (indeterminate : Fin 16 → UInt8) : Fin 16 → UInt8
  | 0 => 0x7f
  | 1 => 69
  | 2 => 76
  | 3 => 70
  | 4 => 1
  | 5 => 1
  | 6 => 1
  | 7 => 0
  | 8 => 0
  | index => indeterminate index

def header (indeterminate : Fin 16 → UInt8) (sectionOffset sections shstrndx : Nat) : Ehdr where
  ident := identification indeterminate
  type := 1
  machine := 40
  version := 1
  entry := 0
  phoff := 0
  shoff := .ofNat sectionOffset
  flags := 0x05000000
  ehsize := 52
  phentsize := 32
  phnum := 0
  shentsize := 40
  shnum := .ofNat sections
  shstrndx := .ofNat shstrndx

/-- `finalize`, with the bytes of the stream that it returns. -/
def finalize (generator : Generator) (indeterminate : Fin 16 → UInt8) :
    Except ToolFault (List UInt8) := do
  check (generator.finalized = false)
  let (sectionOffset, generator) ← generator.encodeSections
  let shstrndx ← valueOf generator.shstrtab.sectionIndex
  let stream := generator.stream.seek 0
  .ok (stream.writeObject (header indeterminate sectionOffset generator.sections.length shstrndx)).2.bytes

end Generator

structure RelocationTable where
  nameSuffix : List UInt8
  symtabIndex : Nat
  targetIndex : Nat
  relStream : MemoryStream
  relaStream : MemoryStream
  relIndex : Option Nat
  relaIndex : Option Nat
  finalized : Bool

namespace RelocationTable

/-- One of the two sections of `initialize`. -/
def createSection (table : RelocationTable) (generator : Generator) (kind : List UInt8)
    (type entsize : UInt32) :
    Except ToolFault (Nat × Generator) := do
  let (index, generator) := generator.createSection (kind ++ table.nameSuffix) type 0
  let generator ← generator.modifySection index fun header =>
    { header with entsize, link := .ofNat table.symtabIndex, info := .ofNat table.targetIndex }
  .ok (index, generator)

def construct (generator : Generator) (nameSuffix : List UInt8) (symtabIndex targetIndex : Nat) :
    Except ToolFault (RelocationTable × Generator) := do
  let table : RelocationTable :=
    ⟨nameSuffix, symtabIndex, targetIndex, .empty, .empty, none, none, false⟩
  let (rel, generator) ← table.createSection generator (literal ".rel") SHT_REL 8
  let (rela, generator) ← table.createSection generator (literal ".rela") SHT_RELA 12
  .ok ({ table with relIndex := some rel, relaIndex := some rela }, generator)

def addRel (table : RelocationTable) (relocation : Rel) : RelocationTable :=
  { table with relStream := (table.relStream.writeObject relocation).2 }

def addRela (table : RelocationTable) (relocation : Rela) : RelocationTable :=
  { table with relaStream := (table.relaStream.writeObject relocation).2 }

def finalize (table : RelocationTable) (generator : Generator) :
    Except ToolFault (RelocationTable × Generator) := do
  check (table.finalized = false)
  let rel ← valueOf table.relIndex
  let generator ← generator.writeSection rel table.relStream
  let rela ← valueOf table.relaIndex
  let generator ← generator.writeSection rela table.relaStream
  .ok ({ table with finalized := true }, generator)

end RelocationTable

/-- A generator and the relocation tables of its user. -/
structure Session where
  generator : Generator
  tables : List RelocationTable

/-- What a user can call before `Generator::finalize`. Tables are numbered in the order in which
they are constructed. -/
inductive Call where
  | createSection (name : List UInt8) (type flags : UInt32)
  | addSymbol (name : List UInt8) (symbol : Sym)
  | addUndefinedSymbol (name : List UInt8) (symbol : Sym)
  | addRelocations (nameSuffix : List UInt8) (symtabIndex targetIndex : Nat)
  | addRel (table : Nat) (relocation : Rel)
  | addRela (table : Nat) (relocation : Rela)
  | finalizeRelocations (table : Nat)
  | writeSection (index : Nat) (stream : MemoryStream)

namespace Session

def construct : Except ToolFault Session := do
  let generator ← Generator.construct
  .ok ⟨generator, []⟩

/-- A call, with the number that it returns. The number of a table is that of its first section. -/
def execute (session : Session) : Call → Except ToolFault (Nat × Session)
  | .createSection name type flags =>
    let (index, generator) := session.generator.createSection name type flags
    .ok (index, { session with generator })
  | .addSymbol name symbol => do
    let (index, symtab) ← session.generator.symtab.addSymbol name symbol
    .ok (index, { session with generator := { session.generator with symtab } })
  | .addUndefinedSymbol name symbol => do
    let (index, symtab) ← session.generator.symtab.addUndefinedSymbol name symbol
    .ok (index, { session with generator := { session.generator with symtab } })
  | .addRelocations nameSuffix symtabIndex targetIndex => do
    let (table, generator) ← RelocationTable.construct session.generator nameSuffix
      symtabIndex targetIndex
    let index ← valueOf table.relIndex
    .ok (index, ⟨generator, session.tables ++ [table]⟩)
  | .addRel number relocation => do
    let table ← valueOf session.tables[number]?
    .ok (0, { session with tables := session.tables.set number (table.addRel relocation) })
  | .addRela number relocation => do
    let table ← valueOf session.tables[number]?
    .ok (0, { session with tables := session.tables.set number (table.addRela relocation) })
  | .finalizeRelocations number => do
    let table ← valueOf session.tables[number]?
    let (table, generator) ← table.finalize session.generator
    .ok (0, ⟨generator, session.tables.set number table⟩)
  | .writeSection index stream => do
    let generator ← session.generator.writeSection index stream
    .ok (0, { session with generator })

/-- The calls one after another, with the numbers that they return. -/
def play (session : Session) : List Call → Except ToolFault (List Nat × Session)
  | [] => .ok ([], session)
  | call :: calls => do
    let (number, session) ← session.execute call
    let (numbers, session) ← session.play calls
    .ok (number :: numbers, session)

end Session

/-- The object file that a sequence of calls generates, with the numbers that the calls return. -/
def generate (indeterminate : Fin 16 → UInt8) (calls : List Call) :
    Except ToolFault (List Nat × List UInt8) := do
  let session ← Session.construct
  let (numbers, session) ← session.play calls
  let object ← session.generator.finalize indeterminate
  .ok (numbers, object)

end PicoOs.Tools
