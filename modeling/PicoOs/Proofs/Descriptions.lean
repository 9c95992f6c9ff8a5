import PicoOs.Library.Outcome
import PicoOs.Tools.LibElf

/-! What a sequence of calls asks of an object file: its sections, symbols and relocation
tables, and what is written into the sections. Next to it, where the generator has put these
things already, although it writes most of them when it is finalized. -/

namespace PicoOs.Tools
open Library Elf
open Kernel (literal)

structure SectionSpec where
  name : List UInt8
  type : UInt32
  flags : UInt32
  link : UInt32
  info : UInt32
  addralign : UInt32
  entsize : UInt32
  deriving DecidableEq

structure TableSpec where
  nameSuffix : List UInt8
  symtabIndex : Nat
  targetIndex : Nat
  rel : Nat
  rels : List Rel
  relas : List Rela
  finalized : Bool

structure Description where
  sections : List SectionSpec
  symbols : List (List UInt8 × Sym)
  tables : List TableSpec
  writes : List (Nat × List UInt8)

namespace Description

def initial : Description where
  sections := [⟨[], SHT_NULL, 0, 0, 0, 0, 0⟩, ⟨literal ".shstrtab", SHT_STRTAB, 0, 0, 0, 4, 0⟩, ⟨literal ".strtab", SHT_STRTAB, 0, 0, 0, 4, 0⟩,
    ⟨literal ".symtab", SHT_SYMTAB, 0, 2, 1, 4, 16⟩]
  symbols := [([], SymbolTable.undefinedSymbol)]
  tables := []
  writes := []

def push (description : Description) (spec : SectionSpec) : Description :=
  { description with sections := description.sections ++ [spec] }

def addSymbol (description : Description) (name : List UInt8) (symbol : Sym) : Description :=
  { description with symbols := description.symbols ++ [(name, symbol)] }

def write (description : Description) (index : Nat) (bytes : List UInt8) : Description :=
  { description with writes := description.writes ++ [(index, bytes)] }

def setTable (description : Description) (number : Nat) (table : TableSpec) : Description :=
  { description with tables := description.tables.set number table }

def relocationSpec (kind nameSuffix : List UInt8) (type entsize : UInt32)
    (symtabIndex targetIndex : Nat) : SectionSpec :=
  ⟨kind ++ nameSuffix, type, 0, .ofNat symtabIndex, .ofNat targetIndex, 4, entsize⟩

def step (description : Description) : Call → Nat × Description
  | .createSection name type flags =>
      (description.sections.length, description.push ⟨name, type, flags, 0, 0, 4, 0⟩)
  | .addSymbol name symbol => (description.symbols.length, description.addSymbol name symbol)
  | .addUndefinedSymbol name symbol =>
      (description.symbols.length, description.addSymbol name { symbol with shndx := 0 })
  | .addRelocations nameSuffix symtabIndex targetIndex =>
    let created := (description.push (relocationSpec (literal ".rel") nameSuffix SHT_REL 8 symtabIndex targetIndex)).push
      (relocationSpec (literal ".rela") nameSuffix SHT_RELA 12 symtabIndex targetIndex)
    let table : TableSpec := ⟨nameSuffix, symtabIndex, targetIndex,
      description.sections.length, [], [], false⟩
    (description.sections.length, { created with tables := created.tables ++ [table] })
  | .addRel number relocation =>
    match description.tables[number]? with
    | some table =>
        (0, description.setTable number { table with rels := table.rels ++ [relocation] })
    | none => (0, description)
  | .addRela number relocation =>
    match description.tables[number]? with
    | some table =>
        (0, description.setTable number { table with relas := table.relas ++ [relocation] })
    | none => (0, description)
  | .finalizeRelocations number =>
    match description.tables[number]? with
    | some table =>
      let written := (description.write table.rel (Record.encodeAll table.rels)).write
        (table.rel + 1) (Record.encodeAll table.relas)
      (0, written.setTable number { table with finalized := true })
    | none => (0, description)
  | .writeSection index stream => (0, description.write index stream.bytes)

def describe (description : Description) : List Call → List Nat × Description
  | [] => ([], description)
  | call :: calls =>
    let (numbers, last) := (description.step call).2.describe calls
    ((description.step call).1 :: numbers, last)

/-- The sections that are written by the generator or by a relocation table. -/
def Owned (description : Description) (index : Nat) : Prop :=
  index = 1 ∨ index = 2 ∨ index = 3 ∨ ∃ table ∈ description.tables, index = table.rel ∨
    index = table.rel + 1

def Open (description : Description) (number : Nat) : Prop :=
  ∃ table, description.tables[number]? = some table ∧ table.finalized = false

/-- Sections are written once, and only those that exist, and tables are used until they are
finalized. -/
def Permits (description : Description) : Call → Prop
  | .writeSection index _ =>
      index < description.sections.length ∧ ¬description.Owned index ∧
        index ∉ description.writes.map Prod.fst
  | .addRel number _ | .addRela number _ | .finalizeRelocations number => description.Open number
  | .createSection _ _ _ | .addSymbol _ _ | .addUndefinedSymbol _ _ | .addRelocations _ _ _ => True

/-- A sequence of calls after which the generator can be finalized. -/
def Legal (description : Description) : List Call → Prop
  | [] => ∀ table ∈ description.tables, table.finalized = true
  | call :: calls => description.Permits call ∧ (description.step call).2.Legal calls

/-! Where things are. -/

def sectionNames (description : Description) : List (List UInt8) :=
  description.sections.map fun spec => terminated spec.name
def symbolNames (description : Description) : List (List UInt8) :=
  description.symbols.map fun symbol => terminated symbol.1

def headerOf (spec : SectionSpec) (name : Nat) (place : Option (Nat × Nat)) : Shdr where
  name := .ofNat name
  type := spec.type
  flags := spec.flags
  addr := .ofNat ((place.map Prod.fst).getD Generator.headerSize - Generator.headerSize)
  offset := .ofNat ((place.map Prod.fst).getD 0)
  size := .ofNat ((place.map Prod.snd).getD 0)
  link := spec.link
  info := spec.info
  addralign := spec.addralign
  entsize := spec.entsize

def headers (description : Description) : List Shdr :=
  description.sections.mapIdx fun index spec =>
    headerOf spec (blockStart description.sectionNames index)
      (placement Generator.headerSize description.writes index)

def symbolRecords (description : Description) : List Sym :=
  description.symbols.mapIdx fun index symbol =>
    { symbol.2 with name := .ofNat (blockStart description.symbolNames index) }

end Description

def MemoryStream.filled (bytes : List UInt8) : MemoryStream := ⟨bytes, bytes.length⟩

structure MemoryStream.Holds (stream : MemoryStream) (written : List UInt8) : Prop where
  padded : stream.bytes ++ List.replicate (stream.position - stream.bytes.length) 0 = written
  position : stream.position = written.length

def TableSpec.table (spec : TableSpec) : RelocationTable :=
  ⟨spec.nameSuffix, spec.symtabIndex, spec.targetIndex, .filled (Record.encodeAll spec.rels),
    .filled (Record.encodeAll spec.relas),
    some spec.rel, some (spec.rel + 1), spec.finalized⟩

/-- The generator has been told what the description says. -/
structure Generator.Matches (generator : Generator) (description : Description) : Prop where
  shstrtab : generator.shstrtab = ⟨literal ".shstrtab", .filled description.sectionNames.flatten, some 1, false⟩
  symtab : generator.symtab = ⟨literal ".symtab", ⟨literal ".strtab", .filled description.symbolNames.flatten, some 2, false⟩,
    .filled (Record.encodeAll description.symbolRecords), description.symbols.length, some 3, false⟩
  sections : generator.sections = description.headers
  stream : generator.stream.Holds (List.replicate Generator.headerSize 0 ++ contents description.writes)
  finalized : generator.finalized = false

structure Session.Matches (session : Session) (description : Description) : Prop where
  generator : session.generator.Matches description
  tables : session.tables = description.tables.map TableSpec.table

namespace MemoryStream
variable {stream : MemoryStream} {written : List UInt8}

/-- Writing appends. -/
theorem Holds.writeBytes (holds : stream.Holds written) (bytes : List UInt8) :
    (stream.writeBytes bytes).2.Holds (written ++ bytes) := by
  obtain ⟨padded, position⟩ := holds
  have covers : stream.bytes.length ≤ stream.position := by
    rw [position, ← padded, List.length_append]
    exact Nat.le_add_right _ _
  unfold MemoryStream.writeBytes
  split
  next empty =>
    rw [empty, List.append_nil]
    exact ⟨padded, position⟩
  next =>
    dsimp only
    rw [List.take_of_length_le covers, padded,
      List.drop_eq_nil_of_le (covers.trans (Nat.le_add_right _ _)), List.append_nil]
    have length : stream.position + bytes.length = (written ++ bytes).length := by
      rw [List.length_append, position]
    refine ⟨?_, length⟩
    dsimp only
    rw [length, Nat.sub_self, List.replicate_zero, List.append_nil]

theorem filled_writeBytes (written bytes : List UInt8) :
    (filled written).writeBytes bytes = (written.length, filled (written ++ bytes)) := by
  unfold MemoryStream.writeBytes
  split
  next empty => rw [empty, List.append_nil]; rfl
  next =>
    dsimp only [filled]
    rw [List.take_length, Nat.sub_self, List.replicate_zero, List.append_nil,
      List.drop_eq_nil_of_le (Nat.le_add_right _ _), List.append_nil,
      List.length_append]

end MemoryStream

theorem addEntry_filled (name value written : List UInt8) (sectionIndex : Option Nat)
    (finalized : Bool) :
    StringTable.addEntry ⟨name, .filled written, sectionIndex, finalized⟩ value =
      (written.length, ⟨name, .filled (written ++ terminated value), sectionIndex, finalized⟩) := by
  simp only [StringTable.addEntry, MemoryStream.filled_writeBytes, terminated, List.append_assoc]

namespace Description
variable {description : Description} {spec : SectionSpec} {index : Nat}

theorem getElem?_headers (description : Description) (index : Nat) :
    description.headers[index]? = description.sections[index]?.map fun spec =>
    headerOf spec (blockStart description.sectionNames index)
      (placement Generator.headerSize description.writes index) :=
  List.getElem?_mapIdx

theorem length_headers (description : Description) :
    description.headers.length = description.sections.length := List.length_mapIdx

theorem getElem?_symbolRecords (description : Description) (index : Nat) :
    description.symbolRecords[index]? =
    description.symbols[index]?.map fun symbol => { symbol.2 with name := .ofNat (blockStart description.symbolNames index) } :=
  List.getElem?_mapIdx

theorem length_symbolRecords (description : Description) :
    description.symbolRecords.length = description.symbols.length := List.length_mapIdx

/-- A new section is behind the others, whose headers stay as they are. -/
theorem headers_push (spec : SectionSpec)
    (unwritten : description.sections.length ∉ description.writes.map Prod.fst) :
    (description.push spec).headers = description.headers ++
      [headerOf spec description.sectionNames.flatten.length none] := by
  have names : (description.push spec).sectionNames = description.sectionNames ++
    [terminated spec.name] := List.map_append
  have length : description.sectionNames.length = description.sections.length := List.length_map ..
  have start : blockStart (description.sectionNames ++ [terminated spec.name])
    description.sections.length =
      description.sectionNames.flatten.length := length ▸ blockStart_end _ _
  rw [headers, names]
  dsimp only [push]
  rw [List.mapIdx_concat, start, placement_missing unwritten]
  refine congrArg (· ++ _) (List.mapIdx_eq_mapIdx_iff.mpr fun index inside => ?_)
  rw [blockStart_append (length ▸ Nat.le_of_lt inside)]

private theorem symbolRecords_addSymbol (description : Description) (name : List UInt8)
    (symbol : Sym) :
    (description.addSymbol name symbol).symbolRecords =
      description.symbolRecords ++ [{ symbol with name := .ofNat description.symbolNames.flatten.length }] := by
  have names : (description.addSymbol name symbol).symbolNames = description.symbolNames ++
    [terminated name] := List.map_append
  have length : description.symbolNames.length = description.symbols.length := List.length_map ..
  have start : blockStart (description.symbolNames ++ [terminated name])
    description.symbols.length =
      description.symbolNames.flatten.length := length ▸ blockStart_end _ _
  rw [symbolRecords, names]
  dsimp only [addSymbol]
  rw [List.mapIdx_concat, start]
  refine congrArg (· ++ _) (List.mapIdx_eq_mapIdx_iff.mpr fun index inside => ?_)
  rw [blockStart_append (length ▸ Nat.le_of_lt inside)]

private theorem headers_write {header : Shdr} (there : description.headers[index]? = some header)
    (unwritten : index ∉ description.writes.map Prod.fst) (bytes : List UInt8) :
    (description.write index bytes).headers = description.headers.set index { header with
      addr := .ofNat (contents description.writes).length
      offset := .ofNat (Generator.headerSize + (contents description.writes).length)
      size := .ofNat bytes.length } := by
  apply List.ext_getElem?
  intro other
  have names : (description.write index bytes).sectionNames = description.sectionNames := rfl
  have sections : (description.write index bytes).sections = description.sections := rfl
  have writes : (description.write index bytes).writes = description.writes ++ [(index, bytes)] :=
    rfl
  rw [getElem?_headers, names, sections, writes, List.getElem?_set]
  split
  next same =>
    subst same
    obtain ⟨inside, _⟩ := List.getElem?_eq_some_iff.mp there
    rw [getElem?_headers] at there
    obtain ⟨spec, found, rfl⟩ := Option.map_eq_some_iff.mp there
    rw [if_pos inside, found, placement_last unwritten]
    simp [headerOf]
  next different =>
    rw [getElem?_headers, placement_concat (fun same => different same.symm)]

end Description

namespace Generator
variable {generator : Generator} {description : Description} {index : Nat}

theorem createSection_matches (told : generator.Matches description)
    (unwritten : description.sections.length ∉ description.writes.map Prod.fst)
    (name : List UInt8) (type flags : UInt32) :
    (generator.createSection name type flags).1 = description.sections.length ∧
      (generator.createSection name type flags).2.Matches (description.push ⟨name, type, flags, 0,
        0, 4, 0⟩) := by
  have entry := addEntry_filled (literal ".shstrtab") name description.sectionNames.flatten (some 1) false
  rw [createSection, told.shstrtab, entry]
  refine ⟨by rw [told.sections, Description.length_headers], ⟨?_, told.symtab, ?_, told.stream, told.finalized⟩⟩
  · have names : (description.push ⟨name, type, flags, 0, 0, 4, 0⟩).sectionNames =
      description.sectionNames ++ [terminated name] := List.map_append
    rw [names, List.flatten_append, List.flatten_singleton]
  · rw [Description.headers_push _ unwritten, told.sections]
    rfl

theorem modifySection_ok {header : Shdr} (there : generator.sections[index]? = some header)
    (change : Shdr → Shdr) :
    generator.modifySection index change = .ok { generator with sections := generator.sections.set index (change header) } := by
  rw [modifySection, there]
  rfl

private theorem modifySection_matches {spec other : SectionSpec}
    (told : generator.Matches (description.push spec))
    (unwritten : description.sections.length ∉ description.writes.map Prod.fst)
    {change : Shdr → Shdr}
    (changes : ∀ name place, change (Description.headerOf spec name place) =
      Description.headerOf other name place) (same : other.name = spec.name) :
    ∃ after, generator.modifySection description.sections.length change = .ok after ∧
    after.Matches (description.push other) := by
  have sections := told.sections
  rw [Description.headers_push spec unwritten] at sections
  have there : generator.sections[description.sections.length]? =
    some (Description.headerOf spec description.sectionNames.flatten.length none) := by
    rw [sections, ← Description.length_headers, List.getElem?_concat_length]
  refine ⟨_, modifySection_ok there change, ⟨?_, told.symtab, ?_, told.stream, told.finalized⟩⟩
  · have names : (description.push other).sectionNames = (description.push spec).sectionNames := by
      simp only [Description.sectionNames, Description.push, List.map_append,
        List.map_singleton, same]
    rw [names]
    exact told.shstrtab
  · rw [Description.headers_push other unwritten, changes]
    dsimp only
    rw [sections, ← Description.length_headers,
      List.set_append_right _ _ (Nat.le_refl _), Nat.sub_self]
    rfl

theorem writeSection_matches (told : generator.Matches description)
    (inside : index < description.sections.length)
    (unwritten : index ∉ description.writes.map Prod.fst) (stream : MemoryStream) :
    ∃ after, generator.writeSection index stream = .ok after ∧
    after.Matches (description.write index stream.bytes) := by
  have present : index < description.headers.length := by rwa [Description.length_headers]
  obtain ⟨header, there⟩ : ∃ header, description.headers[index]? = some header :=
    ⟨_, List.getElem?_eq_getElem present⟩
  have here : generator.sections[index]? = some header := told.sections ▸ there
  have position : generator.stream.position = headerSize +
    (contents description.writes).length := by
    rw [told.stream.position, List.length_append, List.length_replicate]
  rw [writeSection, modifySection_ok here]
  refine ⟨_, rfl, ⟨told.shstrtab, told.symtab, ?_, ?_, told.finalized⟩⟩
  · rw [Description.headers_write there unwritten, told.sections, position, Nat.add_sub_cancel_left]
    rfl
  · have written := told.stream.writeBytes stream.bytes
    rw [List.append_assoc] at written
    have more : contents (description.write index stream.bytes).writes =
      contents description.writes ++ stream.bytes := by
      rw [Description.write, contents_append, contents_cons]
      exact congrArg _ (List.append_nil _)
    rw [more]
    exact written

private theorem addSymbol_matches (told : generator.Matches description) {symbol : Sym}
    (accepted : bindAccepted symbol.info = true) (name : List UInt8) :
    ∃ symtab, generator.symtab.addSymbol name symbol = .ok (description.symbols.length, symtab) ∧
      Matches { generator with symtab } (description.addSymbol name symbol) := by
  have entry := addEntry_filled (literal ".strtab") name description.symbolNames.flatten (some 2) false
  have checked : check (bindAccepted symbol.info = true) = .ok () := if_pos accepted
  have object := MemoryStream.filled_writeBytes (Record.encodeAll description.symbolRecords)
    (Record.encode ({ symbol with name := .ofNat description.symbolNames.flatten.length } : Sym))
  simp only [told.symtab, SymbolTable.addSymbol, checked, entry, MemoryStream.writeObject, object,
    bind, Except.bind]
  refine ⟨_, rfl, ⟨told.shstrtab, ?_, told.sections, told.stream, told.finalized⟩⟩
  have names : (description.addSymbol name symbol).symbolNames = description.symbolNames ++
    [terminated name] := List.map_append
  rw [Description.symbolRecords_addSymbol, Record.encodeAll_append, names, List.flatten_append,
    List.flatten_singleton,
    Description.addSymbol, List.length_append]
  simp only [Record.encodeAll, List.map_singleton, List.flatten_singleton, List.length_singleton]

end Generator

private theorem RelocationTable.createSection_matches {generator : Generator}
    {description : Description} (told : generator.Matches description)
    (unwritten : description.sections.length ∉ description.writes.map Prod.fst)
    (table : RelocationTable) (kind : List UInt8) (type entsize : UInt32) :
    ∃ after, table.createSection generator kind type entsize =
      .ok (description.sections.length, after) ∧
      after.Matches (description.push (Description.relocationSpec kind table.nameSuffix type entsize table.symtabIndex table.targetIndex)) := by
  obtain ⟨index, created⟩ := generator.createSection_matches told unwritten
    (kind ++ table.nameSuffix) type 0
  obtain ⟨after, modified, result⟩ := @Generator.modifySection_matches _ _ _
    (Description.relocationSpec kind table.nameSuffix type entsize table.symtabIndex table.targetIndex) created unwritten
    (fun header => { header with entsize, link := .ofNat table.symtabIndex, info := .ofNat table.targetIndex }) (fun _ _ => rfl) rfl
  refine ⟨after, ?_, result⟩
  rw [RelocationTable.createSection]
  dsimp only
  rw [index, modified]
  rfl

namespace Description
variable {description : Description} {call : Call} {index number : Nat} {stream : MemoryStream}

private theorem mem_set_cases {α : Type} {values : List α} {value found : α} {number : Nat}
    (member : found ∈ values.set number value) :
    found = value ∨ ∃ other, number ≠ other ∧ values[other]? = some found := by
  obtain ⟨other, there⟩ := List.mem_iff_getElem?.mp member
  rw [List.getElem?_set] at there
  split at there
  next =>
    split at there
    next => exact .inl (Option.some.inj there).symm
    next => cases there
  next different => exact .inr ⟨other, different, there⟩

structure Arranged (description : Description) : Prop where
  first : ∃ more, description.sections = initial.sections ++ more
  tables : ∀ table ∈ description.tables, 4 ≤ table.rel ∧
    description.sections[table.rel]? = some (relocationSpec (literal ".rel") table.nameSuffix SHT_REL 8 table.symtabIndex table.targetIndex) ∧
    description.sections[table.rel + 1]? = some (relocationSpec (literal ".rela") table.nameSuffix SHT_RELA 12 table.symtabIndex table.targetIndex)
  apart : description.tables.Pairwise fun first last => first.rel + 1 < last.rel

/-- Sections that exist have been written, no section twice, and not yet those of the generator. -/
structure Recorded (description : Description) : Prop where
  distinct : (description.writes.map Prod.fst).Nodup
  written : ∀ index ∈ description.writes.map Prod.fst, index < description.sections.length
  own : ∀ index ∈ description.writes.map Prod.fst, index ≠ 1 ∧ index ≠ 2 ∧ index ≠ 3

/-- What holds of every description that calls lead to. The sections of a table are written
when it is finalized. -/
structure Formed (description : Description) :
    Prop extends description.Arranged, description.Recorded where
  waiting : ∀ table ∈ description.tables, table.finalized = false →
    table.rel ∉ description.writes.map Prod.fst ∧ table.rel + 1 ∉ description.writes.map Prod.fst
  final : ∀ table ∈ description.tables, table.finalized = true →
    (table.rel, Record.encodeAll table.rels) ∈ description.writes ∧
      (table.rel + 1, Record.encodeAll table.relas) ∈ description.writes

theorem keys_write (description : Description) (index : Nat) (bytes : List UInt8) :
    (description.write index bytes).writes.map Prod.fst = description.writes.map Prod.fst ++
      [index] := List.map_append

theorem getElem?_push {other : SectionSpec} (there : description.sections[index]? = some other)
    (spec : SectionSpec) :
    (description.push spec).sections[index]? = some other := by
  obtain ⟨inside, _⟩ := List.getElem?_eq_some_iff.mp there
  rw [push, List.getElem?_append_left inside, there]

namespace Arranged

private theorem push (arranged : description.Arranged) (spec : SectionSpec) :
    (description.push spec).Arranged where
  first := by
    obtain ⟨more, same⟩ := arranged.first
    exact ⟨more ++ [spec], by rw [Description.push, same, List.append_assoc]⟩
  tables table member := by
    obtain ⟨behind, rel, rela⟩ := arranged.tables table member
    exact ⟨behind, getElem?_push rel spec, getElem?_push rela spec⟩
  apart := arranged.apart

/-- The sections of a table that has just been constructed are the last ones. -/
theorem inside (arranged : description.Arranged) {table : TableSpec}
    (member : table ∈ description.tables) :
    table.rel + 1 < description.sections.length := by
  obtain ⟨_, _, rela⟩ := arranged.tables table member
  exact (List.getElem?_eq_some_iff.mp rela).1

theorem setTable (arranged : description.Arranged) {table other : TableSpec}
    (there : description.tables[number]? = some table)
    (same : other.rel = table.rel ∧ other.nameSuffix = table.nameSuffix ∧
      other.symtabIndex = table.symtabIndex ∧
      other.targetIndex = table.targetIndex) : (description.setTable number other).Arranged := by
  obtain ⟨inside, here⟩ := List.getElem?_eq_some_iff.mp there
  refine ⟨arranged.first, fun each found => ?_, ?_⟩
  · obtain before | rfl := List.mem_or_eq_of_mem_set found
    · exact arranged.tables each before
    · obtain ⟨rel, nameSuffix, symtabIndex, targetIndex⟩ := same
      rw [rel, nameSuffix, symtabIndex, targetIndex]
      exact arranged.tables table (List.mem_of_getElem? there)
  · have rels : (description.setTable number other).tables.map TableSpec.rel =
      description.tables.map TableSpec.rel := by
      rw [Description.setTable, List.map_set, same.1, ← here, ← List.map_set, List.set_getElem_self]
    have apart : (description.tables.map TableSpec.rel).Pairwise fun first last =>
      first + 1 < last := List.pairwise_map.mpr arranged.apart
    rw [← rels] at apart
    exact List.pairwise_map.mp apart

private theorem distinct_tables (arranged : description.Arranged) {other : Nat}
    {first last : TableSpec} (there : description.tables[number]? = some first)
    (thereOther : description.tables[other]? = some last) (different : number ≠ other) :
    first.rel + 1 < last.rel ∨ last.rel + 1 < first.rel := by
  obtain ⟨inside, rfl⟩ := List.getElem?_eq_some_iff.mp there
  obtain ⟨insideOther, rfl⟩ := List.getElem?_eq_some_iff.mp thereOther
  obtain less | greater := Nat.lt_or_gt_of_ne different
  · exact .inl (List.pairwise_iff_getElem.mp arranged.apart _ _ inside insideOther less)
  · exact .inr (List.pairwise_iff_getElem.mp arranged.apart _ _ insideOther inside greater)

end Arranged

namespace Recorded

private theorem push (recorded : description.Recorded) (spec : SectionSpec) :
    (description.push spec).Recorded where
  distinct := recorded.distinct
  written index member := by
    rw [Description.push, List.length_append]
    exact Nat.lt_add_right _ (recorded.written index member)
  own := recorded.own

private theorem unwritten (recorded : description.Recorded) :
    description.sections.length ∉ description.writes.map Prod.fst :=
  fun member => Nat.lt_irrefl _ (recorded.written _ member)

theorem write (recorded : description.Recorded) (inside : index < description.sections.length)
    (fresh : index ∉ description.writes.map Prod.fst)
    (own : index ≠ 1 ∧ index ≠ 2 ∧ index ≠ 3) (bytes : List UInt8) :
    (description.write index bytes).Recorded := by
  have cases {other : Nat} (member : other ∈ (description.write index bytes).writes.map Prod.fst) :
      other ∈ description.writes.map Prod.fst ∨ other = index := by
    rw [keys_write, List.mem_append, List.mem_singleton] at member
    exact member
  refine ⟨?_, fun other member => ?_, fun other member => ?_⟩
  · rw [keys_write]
    exact List.nodup_append.mpr ⟨recorded.distinct, List.nodup_singleton _,
      fun first member last same =>
      fun equal => fresh (List.mem_singleton.mp same ▸ equal ▸ member)⟩
  · obtain before | rfl := cases member
    · exact recorded.written other before
    · exact inside
  · obtain before | rfl := cases member
    · exact recorded.own other before
    · exact own

end Recorded

namespace Formed

theorem initial : Formed initial where
  first := ⟨[], rfl⟩
  tables := nofun
  apart := .nil
  distinct := .nil
  written := nofun
  own := nofun
  waiting := nofun
  final := nofun

theorem push (formed : description.Formed) (spec : SectionSpec) : (description.push spec).Formed :=
  ⟨formed.toArranged.push spec, formed.toRecorded.push spec, formed.waiting, formed.final⟩

private theorem addSymbol (formed : description.Formed) (name : List UInt8) (symbol : Sym) :
    (description.addSymbol name symbol).Formed :=
  ⟨⟨formed.first, formed.tables, formed.apart⟩, ⟨formed.distinct, formed.written, formed.own⟩,
    formed.waiting, formed.final⟩

private theorem addTable (formed : description.Formed) (nameSuffix : List UInt8)
    (symtabIndex targetIndex : Nat) :
    (description.step (.addRelocations nameSuffix symtabIndex targetIndex)).2.Formed := by
  have created := (formed.push (relocationSpec (literal ".rel") nameSuffix SHT_REL 8 symtabIndex targetIndex)).push
    (relocationSpec (literal ".rela") nameSuffix SHT_RELA 12 symtabIndex targetIndex)
  obtain ⟨more, same⟩ := formed.first
  have fresh : ∀ index, description.sections.length ≤ index →
    index ∉ description.writes.map Prod.fst :=
    fun index behind member => Nat.not_lt.mpr behind (formed.written index member)
  refine ⟨⟨created.first, fun table member => ?_, ?_⟩,
    ⟨created.distinct, created.written, created.own⟩, fun table member waits => ?_,
    fun table member done => ?_⟩
  · obtain before | new := List.mem_append.mp member
    · exact created.tables table before
    · obtain rfl := List.mem_singleton.mp new
      refine ⟨?_, getElem?_push List.getElem?_concat_length _, ?_⟩
      · rw [same, List.length_append]
        exact Nat.le_add_right _ _
      · have length : (description.push (relocationSpec (literal ".rel") nameSuffix SHT_REL 8 symtabIndex targetIndex)).sections.length =
            description.sections.length + 1 := List.length_append
        rw [← length]
        exact List.getElem?_concat_length
  · refine List.pairwise_append.mpr ⟨created.apart, List.pairwise_singleton _ _,
      fun table member last new => ?_⟩
    obtain rfl := List.mem_singleton.mp new
    exact formed.inside member
  · obtain before | new := List.mem_append.mp member
    · exact created.waiting table before waits
    · obtain rfl := List.mem_singleton.mp new
      exact ⟨fresh _ (Nat.le_refl _), fresh _ (Nat.le_succ _)⟩
  · obtain before | new := List.mem_append.mp member
    · exact created.final table before done
    · obtain rfl := List.mem_singleton.mp new
      cases done

private theorem useTable (formed : description.Formed) {table other : TableSpec}
    (there : description.tables[number]? = some table)
    (same : other.rel = table.rel ∧ other.nameSuffix = table.nameSuffix ∧
      other.symtabIndex = table.symtabIndex ∧
      other.targetIndex = table.targetIndex) (waits : table.finalized = false) (still :
      other.finalized = false) :
    (description.setTable number other).Formed := by
  refine ⟨formed.toArranged.setTable there same, ⟨formed.distinct, formed.written, formed.own⟩,
    fun each found unfinished => ?_,
    fun each found done => ?_⟩
  · obtain before | rfl := List.mem_or_eq_of_mem_set found
    · exact formed.waiting each before unfinished
    · rw [same.1]
      exact formed.waiting table (List.mem_of_getElem? there) waits
  · obtain before | rfl := List.mem_or_eq_of_mem_set found
    · exact formed.final each before done
    · exact absurd (still.symm.trans done) (by decide)

private theorem write (formed : description.Formed)
    (permitted : description.Permits (.writeSection index stream)) :
    (description.write index stream.bytes).Formed := by
  obtain ⟨inside, owned, fresh⟩ := permitted
  have own : index ≠ 1 ∧ index ≠ 2 ∧ index ≠ 3 :=
    ⟨fun same => owned (.inl same), fun same => owned (.inr (.inl same)),
      fun same => owned (.inr (.inr (.inl same)))⟩
  refine ⟨⟨formed.first, formed.tables, formed.apart⟩, formed.toRecorded.write inside fresh own _,
    fun table member waits => ?_,
    fun table member done => ?_⟩
  · obtain ⟨rel, rela⟩ := formed.waiting table member waits
    rw [keys_write, List.mem_append, List.mem_append, List.mem_singleton, List.mem_singleton]
    refine ⟨not_or.mpr ⟨rel, fun same => ?_⟩, not_or.mpr ⟨rela, fun same => ?_⟩⟩
    · exact owned (.inr (.inr (.inr ⟨table, member, .inl same.symm⟩)))
    · exact owned (.inr (.inr (.inr ⟨table, member, .inr same.symm⟩)))
  · obtain ⟨rel, rela⟩ := formed.final table member done
    exact ⟨List.mem_append_left _ rel, List.mem_append_left _ rela⟩

private theorem finalizeTable (formed : description.Formed) {table : TableSpec}
    (there : description.tables[number]? = some table)
    (waits : table.finalized = false) (rels relas : List UInt8)
    (same : rels = Record.encodeAll table.rels ∧ relas = Record.encodeAll table.relas) :
    (((description.write table.rel rels).write (table.rel + 1) relas).setTable number { table with finalized := true }).Formed := by
  have member := List.mem_of_getElem? there
  obtain ⟨behind, rel, rela⟩ := formed.tables table member
  obtain ⟨freshRel, freshRela⟩ := formed.waiting table member waits
  have insideRela := formed.inside member
  have recorded : ((description.write table.rel rels).write (table.rel + 1) relas).Recorded := by
    refine (formed.toRecorded.write (Nat.lt_of_succ_lt insideRela) freshRel (by omega) _).write insideRela ?_ (by omega) _
    rw [keys_write, List.mem_append, List.mem_singleton]
    exact not_or.mpr ⟨freshRela, Nat.succ_ne_self _⟩
  have arranged : ((description.write table.rel rels).write (table.rel + 1) relas).Arranged :=
    ⟨formed.first, formed.tables, formed.apart⟩
  have keys : (((description.write table.rel rels).write (table.rel + 1) relas).setTable number { table with finalized := true }).writes.map
      Prod.fst = description.writes.map Prod.fst ++ [table.rel] ++ [table.rel + 1] := by
    rw [← keys_write _ _ rels, ← keys_write _ _ relas]
    rfl
  refine ⟨arranged.setTable there ⟨rfl, rfl, rfl, rfl⟩,
    ⟨recorded.distinct, recorded.written, recorded.own⟩, fun each found unfinished => ?_,
    fun each found done => ?_⟩
  · obtain rfl | ⟨other, different, here⟩ := mem_set_cases found
    · cases unfinished
    · obtain ⟨notRel, notRela⟩ := formed.waiting each (List.mem_of_getElem? here) unfinished
      have apart := formed.distinct_tables there here different
      rw [keys]
      refine ⟨fun written => ?_, fun written => ?_⟩
      · obtain before | rel := List.mem_append.mp written
        · obtain old | rel := List.mem_append.mp before
          · exact notRel old
          · have equal := List.mem_singleton.mp rel
            omega
        · have equal := List.mem_singleton.mp rel
          omega
      · obtain before | rel := List.mem_append.mp written
        · obtain old | rel := List.mem_append.mp before
          · exact notRela old
          · have equal := List.mem_singleton.mp rel
            omega
        · have equal := List.mem_singleton.mp rel
          omega
  · obtain rfl | ⟨other, different, here⟩ := mem_set_cases found
    · obtain ⟨rfl, rfl⟩ := same
      exact ⟨List.mem_append_left _ (List.mem_append_right _ (List.mem_singleton_self _)),
        List.mem_append_right _ (List.mem_singleton_self _)⟩
    · obtain ⟨rel, rela⟩ := formed.final each (List.mem_of_getElem? here) done
      exact ⟨List.mem_append_left _ (List.mem_append_left _ rel),
        List.mem_append_left _ (List.mem_append_left _ rela)⟩

end Formed

theorem step_formed (formed : description.Formed) (permitted : description.Permits call) :
    (description.step call).2.Formed := by
  cases call with
  | createSection name type flags => exact formed.push _
  | addSymbol name symbol => exact formed.addSymbol name symbol
  | addUndefinedSymbol name symbol => exact formed.addSymbol name _
  | addRelocations nameSuffix symtabIndex targetIndex =>
      exact formed.addTable nameSuffix symtabIndex targetIndex
  | addRel number relocation =>
    obtain ⟨table, there, waits⟩ := permitted
    simp only [step, there]
    exact formed.useTable there ⟨rfl, rfl, rfl, rfl⟩ waits waits
  | addRela number relocation =>
    obtain ⟨table, there, waits⟩ := permitted
    simp only [step, there]
    exact formed.useTable there ⟨rfl, rfl, rfl, rfl⟩ waits waits
  | finalizeRelocations number =>
    obtain ⟨table, there, waits⟩ := permitted
    simp only [step, there]
    exact formed.finalizeTable there waits _ _ ⟨rfl, rfl⟩
  | writeSection index stream => exact formed.write permitted

end Description

def Call.Asserted : Call → Prop
  | .addSymbol _ symbol | .addUndefinedSymbol _ symbol => bindAccepted symbol.info = true
  | _ => True

instance : DecidablePred Call.Asserted
  | .addSymbol _ symbol
  | .addUndefinedSymbol _ symbol => inferInstanceAs (Decidable (bindAccepted symbol.info = true))
  | .createSection _ _ _ | .addRelocations _ _ _ | .addRel _ _ | .addRela _ _
  | .finalizeRelocations _ | .writeSection _ _ =>
    inferInstanceAs (Decidable True)

namespace Session
variable {session : Session} {description : Description} {call : Call} {number : Nat}

private theorem Matches.table (told : session.Matches description) {table : TableSpec}
    (there : description.tables[number]? = some table) :
    valueOf session.tables[number]? = .ok table.table := by
  rw [told.tables, List.getElem?_map, there]
  rfl

private theorem Matches.setTable (told : session.Matches description) (number : Nat)
    (table : TableSpec) :
    Matches { session with tables := session.tables.set number table.table }
      (description.setTable number table) where
  generator := ⟨told.generator.shstrtab, told.generator.symtab, told.generator.sections,
    told.generator.stream, told.generator.finalized⟩
  tables := by rw [Description.setTable, List.map_set, told.tables]

/-- The step lemma: a call does what is asked, and returns the number it should. -/
theorem execute_matches (told : session.Matches description) (formed : description.Formed)
    (permitted : description.Permits call)
    (asserted : call.Asserted) :
    ∃ after, session.execute call = .ok ((description.step call).1, after) ∧
    after.Matches (description.step call).2 := by
  cases call with
  | createSection name type flags =>
    obtain ⟨index, created⟩ :=
      Generator.createSection_matches told.generator formed.unwritten name type flags
    refine ⟨{ session with generator := (session.generator.createSection name type flags).2 }, ?_,
      created, told.tables⟩
    exact congrArg (fun number => Except.ok (number, _)) index
  | addSymbol name symbol =>
    obtain ⟨symtab, added, result⟩ := Generator.addSymbol_matches told.generator asserted name
    refine ⟨{ session with generator := { session.generator with symtab } }, ?_,
      result, told.tables⟩
    rw [execute, added]
    rfl
  | addUndefinedSymbol name symbol =>
    obtain ⟨symtab, added, result⟩ :=
      @Generator.addSymbol_matches _ _ told.generator { symbol with shndx := 0 } asserted name
    refine ⟨{ session with generator := { session.generator with symtab } }, ?_,
      result, told.tables⟩
    rw [execute, SymbolTable.addUndefinedSymbol, added]
    rfl
  | addRelocations nameSuffix symtabIndex targetIndex =>
    obtain ⟨first, createdFirst, toldFirst⟩ :=
      RelocationTable.createSection_matches told.generator formed.unwritten
      ⟨nameSuffix, symtabIndex, targetIndex, .empty, .empty, none, none, false⟩ (literal ".rel") SHT_REL 8
    have more := (formed.push (Description.relocationSpec (literal ".rel") nameSuffix SHT_REL 8 symtabIndex targetIndex)).unwritten
    obtain ⟨last, createdLast, toldLast⟩ := RelocationTable.createSection_matches toldFirst more
      ⟨nameSuffix, symtabIndex, targetIndex, .empty, .empty, none, none, false⟩ (literal ".rela") SHT_RELA 12
    have length : (description.push (Description.relocationSpec (literal ".rel") nameSuffix SHT_REL 8 symtabIndex targetIndex)).sections.length =
        description.sections.length + 1 := List.length_append
    rw [length] at createdLast
    let table : TableSpec := ⟨nameSuffix, symtabIndex, targetIndex,
      description.sections.length, [], [], false⟩
    have constructed : RelocationTable.construct session.generator nameSuffix symtabIndex
      targetIndex = .ok (table.table, last) := by
      rw [RelocationTable.construct, createdFirst]
      dsimp only [bind, Except.bind]
      rw [createdLast]
      rfl
    refine ⟨⟨last, session.tables ++ [table.table]⟩, ?_, ?_, ?_⟩
    · rw [execute, constructed]
      rfl
    · exact ⟨toldLast.shstrtab, toldLast.symtab, toldLast.sections, toldLast.stream,
        toldLast.finalized⟩
    · have tables : (description.tables ++ [table]).map TableSpec.table =
        description.tables.map TableSpec.table ++ [table.table] := List.map_append
      rw [told.tables]
      exact tables.symm
  | addRel number relocation =>
    obtain ⟨table, there, _⟩ := permitted
    refine ⟨_, ?_, by simp only [Description.step, there]; exact told.setTable number { table with rels := table.rels ++ [relocation] }⟩
    simp only [execute, told.table there, Description.step, there, bind, Except.bind]
    rw [RelocationTable.addRel, TableSpec.table, MemoryStream.writeObject,
      MemoryStream.filled_writeBytes, TableSpec.table,
      Record.encodeAll_append]
    simp [Record.encodeAll]
  | addRela number relocation =>
    obtain ⟨table, there, _⟩ := permitted
    refine ⟨_, ?_, by simp only [Description.step, there]; exact told.setTable number { table with relas := table.relas ++ [relocation] }⟩
    simp only [execute, told.table there, Description.step, there, bind, Except.bind]
    rw [RelocationTable.addRela, TableSpec.table, MemoryStream.writeObject,
      MemoryStream.filled_writeBytes, TableSpec.table,
      Record.encodeAll_append]
    simp [Record.encodeAll]
  | finalizeRelocations number =>
    obtain ⟨table, there, waits⟩ := permitted
    have member := List.mem_of_getElem? there
    have inside := formed.inside member
    obtain ⟨freshRel, freshRela⟩ := formed.waiting table member waits
    obtain ⟨first, writtenFirst, toldFirst⟩ :=
      Generator.writeSection_matches told.generator (Nat.lt_of_succ_lt inside) freshRel
      (.filled (Record.encodeAll table.rels))
    have freshLast : table.rel + 1 ∉ (description.write table.rel (Record.encodeAll table.rels)).writes.map Prod.fst := by
      rw [Description.keys_write, List.mem_append, List.mem_singleton]
      exact not_or.mpr ⟨freshRela, Nat.succ_ne_self _⟩
    obtain ⟨last, writtenLast, toldLast⟩ :=
      Generator.writeSection_matches toldFirst inside freshLast
      (.filled (Record.encodeAll table.relas))
    have finalized : table.table.finalize session.generator =
      .ok ({ table.table with finalized := true }, last) := by
      have checked : check (table.table.finalized = false) = .ok () := if_pos waits
      rw [RelocationTable.finalize, checked]
      simp only [TableSpec.table, valueOf, writtenFirst, writtenLast, bind, Except.bind]
    have written : Matches { session with generator := last }
        ((description.write table.rel (Record.encodeAll table.rels)).write (table.rel + 1) (Record.encodeAll table.relas)) := ⟨toldLast, told.tables⟩
    refine ⟨_, ?_, by simp only [Description.step, there]; exact written.setTable number { table with finalized := true }⟩
    simp only [execute, told.table there, finalized, Description.step, there, bind, Except.bind]
    rfl
  | writeSection index stream =>
    obtain ⟨inside, _, fresh⟩ := permitted
    obtain ⟨after, written, result⟩ :=
      Generator.writeSection_matches told.generator inside fresh stream
    refine ⟨{ session with generator := after }, ?_, result, told.tables⟩
    rw [execute, written]
    rfl

private theorem check_ok {condition : Prop} [Decidable condition] {value : Unit}
    (done : check condition = .ok value) : condition := by
  unfold check at done
  split at done
  next met => exact met
  next => cases done

/-- A call does not return if its assertion fails. -/
theorem execute_asserted {result : Nat × Session} (done : session.execute call = .ok result) :
    call.Asserted := by
  cases call with
  | addSymbol name symbol =>
    obtain ⟨_, added, _⟩ := bind_ok.mp done
    obtain ⟨_, checked, _⟩ := bind_ok.mp added
    have accepted : bindAccepted symbol.info = true := check_ok checked
    exact accepted
  | addUndefinedSymbol name symbol =>
    obtain ⟨_, added, _⟩ := bind_ok.mp done
    obtain ⟨_, checked, _⟩ := bind_ok.mp added
    have accepted : bindAccepted symbol.info = true := check_ok checked
    exact accepted
  | createSection | addRelocations | addRel | addRela | finalizeRelocations
  | writeSection => trivial

theorem play_asserted {calls : List Call} {result : List Nat × Session}
    (done : session.play calls = .ok result) :
    ∀ call ∈ calls, call.Asserted := by
  induction calls generalizing session result with
  | nil => exact nofun
  | cons call calls ih =>
    obtain ⟨next, executed, done⟩ := bind_ok.mp done
    obtain ⟨last, played, _⟩ := bind_ok.mp done
    exact List.forall_mem_cons.mpr ⟨execute_asserted executed, ih played⟩

/-- The run lemma. -/
theorem play_matches {calls : List Call} (told : session.Matches description)
    (formed : description.Formed)
    (legal : description.Legal calls) (asserted : ∀ call ∈ calls, call.Asserted) :
    ∃ after, session.play calls = .ok ((description.describe calls).1, after) ∧
    after.Matches (description.describe calls).2 ∧
      (description.describe calls).2.Formed ∧
      ∀ table ∈ (description.describe calls).2.tables, table.finalized = true := by
  induction calls generalizing session description with
  | nil => exact ⟨session, rfl, told, formed, legal⟩
  | cons call calls ih =>
    obtain ⟨permitted, later⟩ := legal
    obtain ⟨first, rest⟩ := List.forall_mem_cons.mp asserted
    obtain ⟨next, executed, toldNext⟩ := execute_matches told formed permitted first
    obtain ⟨after, played, result⟩ :=
      ih toldNext (Description.step_formed formed permitted) later rest
    refine ⟨after, ?_, result⟩
    rw [play, executed]
    simp only [bind, Except.bind, played, Description.describe]

/-- A generator starts with four sections and a symbol without a name. -/
theorem construct_matches : ∃ session, construct = .ok session ∧ session.Matches .initial := by
  refine ⟨_, rfl, ⟨?_, ?_, ?_, ⟨?_, ?_⟩, ?_⟩, ?_⟩
  all_goals rfl

end Session

end PicoOs.Tools
