import PicoOs.Proofs.Descriptions

/-! What a reader finds in the object files of the generator. The header is written last, over
the gap in front of the sections, and tells where the headers of the sections are. -/

namespace PicoOs.Tools
open Library Elf
open Kernel (literal)

namespace Description
variable {description : Description}

def completed (description : Description) : Description :=
  ((description.write 2 description.symbolNames.flatten).write 3 (Record.encodeAll description.symbolRecords)).write 1
    description.sectionNames.flatten

def fileHeader (description : Description) (indeterminate : Fin 16 → UInt8) : Ehdr :=
  Generator.header indeterminate (Generator.headerSize + (contents description.completed.writes).length) description.sections.length 1

def object (description : Description) (indeterminate : Fin 16 → UInt8) : List UInt8 :=
  Record.encode (description.fileHeader indeterminate) ++ contents description.completed.writes ++
    Record.encodeAll description.completed.headers

private theorem keys_completed (description : Description) :
    description.completed.writes.map Prod.fst = description.writes.map Prod.fst ++ [2] ++
      [3] ++ [1] := by
  rw [completed, keys_write, keys_write, keys_write]

theorem Recorded.completed (recorded : description.Recorded) :
    (description.completed.writes.map Prod.fst).Nodup := by
  have own : ∀ index ∈ [2, 3, 1], index ∉ description.writes.map Prod.fst := by
    intro index member written
    have different := recorded.own index written
    simp only [List.mem_cons, List.not_mem_nil, or_false] at member
    omega
  rw [keys_completed, List.append_assoc, List.append_assoc]
  refine List.nodup_append.mpr ⟨recorded.distinct,
    by decide, fun index member other ours same => ?_⟩
  exact own other ours (same ▸ member)

end Description

namespace MemoryStream

private theorem Holds.fill {stream : MemoryStream} {written bytes : List UInt8}
    (holds : stream.Holds written) (some : bytes ≠ []) :
    (stream.writeBytes bytes).2 = filled (written ++ bytes) := by
  have result := holds.writeBytes bytes
  have covered : (stream.writeBytes bytes).2.position ≤
    (stream.writeBytes bytes).2.bytes.length := by
    unfold MemoryStream.writeBytes
    rw [if_neg some]
    simp only [List.length_append, List.length_take, List.length_replicate]
    omega
  have padded := result.padded
  rw [Nat.sub_eq_zero_of_le covered, List.replicate_zero, List.append_nil] at padded
  have position := result.position
  rw [filled, ← padded, ← position.trans (congrArg List.length padded).symm]

private theorem filled_writeObjects {α : Type} [Record α] (values : List α) (written : List UInt8) :
    values.foldl (fun stream value => (stream.writeObject value).2) (filled written) =
      filled (written ++ Record.encodeAll values) := by
  induction values generalizing written with
  | nil => simp [Record.encodeAll]
  | cons value values ih =>
    rw [List.foldl_cons, writeObject, filled_writeBytes, ih, List.append_assoc]
    rfl

end MemoryStream

namespace Generator
variable {generator : Generator} {description : Description}

private theorem finalizeTable_matches (told : generator.Matches description)
    (name content : List UInt8) {index : Nat}
    (inside : index < description.sections.length)
    (fresh : index ∉ description.writes.map Prod.fst) :
    ∃ after, generator.finalizeTable ⟨name, .filled content, some index, false⟩ = .ok after ∧
    after.Matches (description.write index content) := by
  obtain ⟨after, written, result⟩ :=
    generator.writeSection_matches told inside fresh (.filled content)
  exact ⟨after, written, result⟩

theorem finalize_object (told : generator.Matches description) (formed : description.Formed)
    (indeterminate : Fin 16 → UInt8) :
    generator.finalize indeterminate = .ok (description.object indeterminate) := by
  obtain ⟨more, sections⟩ := formed.first
  have inside {index : Nat} (small : index < 4) : index < description.sections.length := by
    rw [sections, List.length_append]
    exact Nat.lt_add_right _ small
  have own (index : Nat) (ours : index = 1 ∨ index = 2 ∨ index = 3) :
    index ∉ description.writes.map Prod.fst := by
    intro written
    have different := formed.own index written
    omega
  obtain ⟨first, firstDone, toldFirst⟩ := generator.finalizeTable_matches told (literal ".strtab") description.symbolNames.flatten
    (inside (by decide)) (own 2 (by decide))
  have freshSecond : 3 ∉ (description.write 2 description.symbolNames.flatten).writes.map Prod.fst := by
    rw [Description.keys_write, List.mem_append]
    exact not_or.mpr ⟨own 3 (by decide), by decide⟩
  obtain ⟨second, secondDone, toldSecond⟩ :=
    first.writeSection_matches toldFirst (inside (by decide)) freshSecond
    (.filled (Record.encodeAll description.symbolRecords))
  have freshThird : 1 ∉ ((description.write 2 description.symbolNames.flatten).write 3 (Record.encodeAll description.symbolRecords)).writes.map
      Prod.fst := by
    rw [Description.keys_write, Description.keys_write, List.mem_append, List.mem_append]
    exact not_or.mpr ⟨not_or.mpr ⟨own 1 (by decide), by decide⟩, by decide⟩
  obtain ⟨third, thirdDone, toldThird⟩ := second.finalizeTable_matches toldSecond (literal ".shstrtab") description.sectionNames.flatten
    (inside (by decide)) freshThird
  have complete : third.Matches description.completed := toldThird
  have symtabDone : generator.finalizeSymtab = .ok second := by
    refine bind_ok.mpr ⟨(), if_pos (congrArg SymbolTable.finalized told.symtab),
      bind_ok.mpr ⟨first, ?_, bind_ok.mpr ⟨3, ?_, ?_⟩⟩⟩
    · rw [told.symtab]
      exact firstDone
    · rw [toldFirst.symtab]
      rfl
    · rw [toldFirst.symtab]
      exact secondDone
  have tableDone : second.finalizeTable second.shstrtab = .ok third := by
    rw [toldSecond.shstrtab]
    exact thirdDone
  have count : third.sections.length = description.sections.length := by
    rw [complete.sections, Description.length_headers]
    rfl
  obtain ⟨undefined, headers, nonempty⟩ :=
    List.exists_cons_of_length_pos (count ▸ inside (by decide : 0 < 4))
  have stream : third.sections.foldl (fun stream header => (stream.writeObject header).2) third.stream =
      .filled (List.replicate headerSize 0 ++ contents description.completed.writes ++ Record.encodeAll description.completed.headers) := by
    have some : Record.encode undefined ≠ [] := by
      rw [← List.length_pos_iff, Record.length_encode]
      decide
    rw [← complete.sections, nonempty, List.foldl_cons, MemoryStream.writeObject,
      complete.stream.fill some, MemoryStream.filled_writeObjects,
      List.append_assoc]
    rfl
  have position : third.stream.position = headerSize + (contents description.completed.writes).length := by
    rw [complete.stream.position, List.length_append, List.length_replicate]
  have sectionsDone : generator.encodeSections = .ok
    (headerSize + (contents description.completed.writes).length,
      { third with stream := .filled (List.replicate headerSize 0 ++ contents description.completed.writes ++
        Record.encodeAll description.completed.headers) }) := by
    refine bind_ok.mpr ⟨second, symtabDone, bind_ok.mpr ⟨third, tableDone, ?_⟩⟩
    dsimp only
    rw [stream, position]
  refine bind_ok.mpr ⟨(), if_pos told.finalized,
    bind_ok.mpr ⟨_, sectionsDone, bind_ok.mpr ⟨1, ?_, ?_⟩⟩⟩
  · dsimp only
    rw [complete.shstrtab]
    rfl
  · dsimp only
    rw [count]
    have header : (Record.encode (description.fileHeader indeterminate)).length = headerSize :=
      Record.length_encode _
    have some : Record.encode (description.fileHeader indeterminate) ≠ [] := by
      rw [← List.length_pos_iff, header]
      decide
    have bytes : ((MemoryStream.filled (List.replicate headerSize 0 ++ contents description.completed.writes ++
        Record.encodeAll description.completed.headers)).seek 0).writeObject (description.fileHeader
          indeterminate) =
        (0, ⟨description.object indeterminate, headerSize⟩) := by
      rw [MemoryStream.writeObject, MemoryStream.writeBytes, if_neg some, header]
      simp only [MemoryStream.seek, MemoryStream.filled, List.take_zero, Nat.zero_sub,
        List.replicate_zero, List.nil_append, Nat.zero_add,
        Description.object, List.append_assoc]
      rw [List.drop_left' (List.length_replicate)]
    rw [Description.fileHeader] at bytes
    rw [bytes]

end Generator

structure Fits (header : Shdr) (spec : SectionSpec) : Prop where
  type : header.type = spec.type
  flags : header.flags = spec.flags
  link : header.link = spec.link
  info : header.info = spec.info
  addralign : header.addralign = spec.addralign
  entsize : header.entsize = spec.entsize

def Covers (file : List UInt8) (index position : Nat) : Prop :=
  (sectionHeader file index).offset.toNat ≤ position ∧
    position < (sectionHeader file index).offset.toNat + (sectionHeader file index).size.toNat

/-- What a reader finds in a file that is what the description asks for. -/
structure Describes (file : List UInt8) (description : Description) : Prop where
  counted : (fileHeader file).shnum.toNat = description.sections.length
  table : (fileHeader file).shoff.toNat + description.sections.length *
    (fileHeader file).shentsize.toNat = file.length
  sections : ∀ index spec, description.sections[index]? = some spec →
    Fits (sectionHeader file index) spec ∧ sectionName file index = some spec.name
  written : ∀ index bytes, (index, bytes) ∈ description.writes → sectionBytes file index = bytes
  inside : ∀ index < description.sections.length, ∀ position, Covers file index position →
    (fileHeader file).ehsize.toNat ≤ position ∧ position < (fileHeader file).shoff.toNat
  apart : ∀ index < description.sections.length, ∀ other < description.sections.length, ∀ position,
    Covers file index position → Covers file other position → index = other
  symbols : ∀ index name symbol, description.symbols[index]? = some (name, symbol) →
    { symbolAt file 3 index with name := symbol.name } = symbol ∧
      symbolName file 3 index = some name
  rels : ∀ table ∈ description.tables, ∀ index relocation, table.rels[index]? = some relocation →
    entryOf file table.rel index = relocation
  relas : ∀ table ∈ description.tables, ∀ index relocation, table.relas[index]? = some relocation →
    entryOf file (table.rel + 1) index = relocation
  designates : ∀ table ∈ description.tables, ∀ part ∈ [table.rel, table.rel + 1],
    (table.symtabIndex < description.sections.length →
      (sectionHeader file part).link.toNat = table.symtabIndex) ∧
    (table.targetIndex < description.sections.length →
      (sectionHeader file part).info.toNat = table.targetIndex)

section
variable {first last : List UInt8} {α : Type} [Record α]

private theorem read_behind (offset : Nat) :
    (Record.read (first ++ last) (first.length + offset) : α) = Record.read last offset := by
  rw [Record.read, excerpt_append_right]
  rfl

private theorem read_front {value : α} : Record.read (Record.encode value ++ last) 0 = value := by
  have size := Record.length_encode value
  rw [Record.read, excerpt_append_left _ _ (by omega), excerpt, List.drop_zero, ← size, List.take_length, Record.decode_encode]

end

namespace Description
variable {description : Description} {indeterminate : Fin 16 → UInt8}

/-- The file is small enough for its offsets, and there are few enough sections. -/
structure Small (description : Description) (indeterminate : Fin 16 → UInt8) : Prop where
  bytes : (description.object indeterminate).length < 2 ^ 32
  sections : description.sections.length < 2 ^ 16

theorem length_object (description : Description) (indeterminate : Fin 16 → UInt8) :
    (description.object indeterminate).length =
    Generator.headerSize + (contents description.completed.writes).length +
      description.sections.length * 40 := by
  rw [object, List.length_append, List.length_append, Record.length_encode, Record.length_encodeAll,
    length_headers]
  rfl

theorem Small.contents_lt (small : description.Small indeterminate) :
    Generator.headerSize + (contents description.completed.writes).length < 2 ^ 32 := by
  have bytes := small.bytes
  rw [length_object] at bytes
  omega

theorem fileHeader_object (description : Description) (indeterminate : Fin 16 → UInt8) :
    Elf.fileHeader (description.object indeterminate) = description.fileHeader indeterminate := by
  rw [Elf.fileHeader, object, List.append_assoc, read_front]

theorem shoff_object (small : description.Small indeterminate) :
    (Elf.fileHeader (description.object indeterminate)).shoff.toNat =
    Generator.headerSize + (contents description.completed.writes).length := by
  rw [fileHeader_object]
  exact (UInt32.toNat_ofNat').trans (Nat.mod_eq_of_lt small.contents_lt)

private theorem sectionHeader_object (small : description.Small indeterminate) {index : Nat}
    {header : Shdr} (there : description.completed.headers[index]? = some header) :
    sectionHeader (description.object indeterminate) index = header := by
  have length : (Record.encode (description.fileHeader indeterminate) ++ contents description.completed.writes).length =
      Generator.headerSize + (contents description.completed.writes).length := by
    rw [List.length_append, Record.length_encode]
    rfl
  rw [sectionHeader, shoff_object small, fileHeader_object, ← length, object]
  exact (read_behind _).trans (Record.read_encodeAll there)

theorem header_completed {index : Nat} {spec : SectionSpec}
    (small : description.Small indeterminate) (there : description.sections[index]? = some spec) :
    sectionHeader (description.object indeterminate) index =
      headerOf spec (blockStart description.sectionNames index)
        (placement Generator.headerSize description.completed.writes index) := by
  apply sectionHeader_object small
  have sections : description.completed.sections[index]? = some spec := there
  rw [getElem?_headers, sections]
  rfl

theorem place_object {index start size : Nat} {spec : SectionSpec}
    (small : description.Small indeterminate) (there : description.sections[index]? = some spec)
    (placed : placement Generator.headerSize description.completed.writes index =
      some (start, size)) :
    (sectionHeader (description.object indeterminate) index).offset.toNat = start ∧
      (sectionHeader (description.object indeterminate) index).size.toNat = size := by
  have inside := (placement_inside placed).2
  have contents_lt := small.contents_lt
  rw [header_completed small there, placed]
  exact ⟨UInt32.toNat_ofNat_of_lt' (by simp only [Option.map_some, Option.getD_some, UInt32.size]; omega),
    UInt32.toNat_ofNat_of_lt' (by simp only [Option.map_some, Option.getD_some, UInt32.size]; omega)⟩

private theorem covers_object {index position : Nat} (small : description.Small indeterminate)
    (exists_ : index < description.sections.length)
    (covers : Covers (description.object indeterminate) index position) :
    ∃ place, placement Generator.headerSize description.completed.writes index = some place ∧
      place.1 ≤ position ∧ position < place.1 + place.2 := by
  have there : description.sections[index]? = some description.sections[index] :=
    List.getElem?_eq_getElem exists_
  cases placed : placement Generator.headerSize description.completed.writes index with
  | none =>
    have header := header_completed small there
    rw [placed] at header
    rw [Covers, header] at covers
    exact absurd covers.2 (Nat.not_lt_zero _)
  | some place =>
    obtain ⟨start, size⟩ := place_object small there placed
    rw [Covers, start, size] at covers
    exact ⟨place, rfl, covers⟩

theorem sectionBytes_object {index : Nat} {bytes : List UInt8} {spec : SectionSpec}
    (small : description.Small indeterminate)
    (recorded : description.Recorded) (there : description.sections[index]? = some spec)
    (member : (index, bytes) ∈ description.completed.writes) :
    sectionBytes (description.object indeterminate) index = bytes := by
  obtain ⟨start, placed, inside, read⟩ :=
    placement_read recorded.completed member Generator.headerSize
  obtain ⟨offset, size⟩ := place_object small there placed
  have header : (Record.encode (description.fileHeader indeterminate)).length =
    Generator.headerSize := Record.length_encode _
  rw [sectionBytes, offset, size, object,
    excerpt_append_left _ _ (by rw [List.length_append, header]; omega), ← header, excerpt_append_right, read]

private theorem stringIn_object {names : List (List UInt8)} {table index : Nat} {name : List UInt8}
    {spec : SectionSpec}
    (small : description.Small indeterminate) (recorded : description.Recorded)
    (there : description.sections[table]? = some spec)
    (member : (table, (names.map terminated).flatten) ∈ description.completed.writes)
    (named : names[index]? = some name) (free : 0 ∉ name) :
    stringIn (description.object indeterminate) table (.ofNat (blockStart (names.map terminated) index)) = some name := by
  obtain ⟨inside, _⟩ := List.getElem?_eq_some_iff.mp named
  have start : blockStart (names.map terminated) index ≤ (names.map terminated).flatten.length := by
    rw [← blockStart_length]
    apply blockStart_mono
    rw [List.length_map]
    exact Nat.le_of_lt inside
  obtain ⟨_, _, whole, _⟩ := placement_read recorded.completed member Generator.headerSize
  have contents_lt := small.contents_lt
  rw [stringIn, sectionBytes_object small recorded there member,
    UInt32.toNat_ofNat_of_lt' (by rw [UInt32.size]; omega)]
  exact readString_block named free

structure Free (description : Description) : Prop where
  sections : ∀ spec ∈ description.sections, 0 ∉ spec.name
  symbols : ∀ symbol ∈ description.symbols, 0 ∉ symbol.1

private theorem Formed.generated (formed : description.Formed) {index : Nat} {spec : SectionSpec}
    (there : Description.initial.sections[index]? = some spec) :
    description.sections[index]? = some spec := by
  obtain ⟨more, same⟩ := formed.first
  obtain ⟨inside, _⟩ := List.getElem?_eq_some_iff.mp there
  rw [same, List.getElem?_append_left inside, there]

theorem object_describes (small : description.Small indeterminate) (formed : description.Formed)
    (final : ∀ table ∈ description.tables, table.finalized = true) (free : description.Free) :
    Describes (description.object indeterminate) description := by
  have recorded := formed.toRecorded
  have bytes {index : Nat} {content : List UInt8} {spec : SectionSpec}
    (there : description.sections[index]? = some spec)
      (member : (index, content) ∈ description.completed.writes) :=
        sectionBytes_object small recorded there member
  have before {entry : Nat × List UInt8} (member : entry ∈ description.writes) : entry ∈
    description.completed.writes :=
    List.mem_append_left _ (List.mem_append_left _ (List.mem_append_left _ member))
  have strtab : (2, description.symbolNames.flatten) ∈ description.completed.writes :=
    List.mem_append_left _ (List.mem_append_left _ (List.mem_append_right _ (List.mem_singleton_self _)))
  have symtab : (3, Record.encodeAll description.symbolRecords) ∈ description.completed.writes :=
    List.mem_append_left _ (List.mem_append_right _ (List.mem_singleton_self _))
  have shstrtab : (1, description.sectionNames.flatten) ∈ description.completed.writes :=
    List.mem_append_right _ (List.mem_singleton_self _)
  have symtabSpec := formed.generated (rfl : Description.initial.sections[3]? = some ⟨literal ".symtab", SHT_SYMTAB, 0, 2, 1, 4, 16⟩)
  have symbolAt {index : Nat} {name : List UInt8} {symbol : Sym}
    (there : description.symbols[index]? = some (name, symbol)) :
      Elf.symbolAt (description.object indeterminate) 3 index =
        { symbol with name := .ofNat (blockStart description.symbolNames index) } := by
    have record : description.symbolRecords[index]? = some
      { symbol with name := .ofNat (blockStart description.symbolNames index) } := by
      rw [getElem?_symbolRecords, there]
      rfl
    rw [Elf.symbolAt, entryOf, bytes symtabSpec symtab, header_completed small symtabSpec]
    exact Record.read_encodeAll record
  refine ⟨?_, ?_, fun index spec there => ⟨?_, ?_⟩, fun index content member => ?_,
    fun index exists_ position covers => ?_,
    fun index exists_ other existsOther position covers coversOther =>
      ?_, fun index name symbol there => ⟨?_, ?_⟩,
    fun table member index relocation there => ?_, fun table member index relocation there =>
      ?_, fun table member part mine => ?_⟩
  · rw [fileHeader_object]
    exact UInt16.toNat_ofNat_of_lt' small.sections
  · rw [shoff_object small, fileHeader_object, length_object]
    rfl
  · rw [header_completed small there]
    exact ⟨rfl, rfl, rfl, rfl, rfl, rfl⟩
  · have tableSpec := formed.generated (rfl : Description.initial.sections[1]? = some ⟨literal ".shstrtab", SHT_STRTAB, 0, 0, 0, 4, 0⟩)
    have names : description.sectionNames = (description.sections.map SectionSpec.name).map
      terminated := by rw [List.map_map]; rfl
    have named : (description.sections.map SectionSpec.name)[index]? = some spec.name := by
      rw [List.getElem?_map, there]; rfl
    rw [names] at shstrtab
    rw [sectionName, fileHeader_object, header_completed small there, names]
    exact stringIn_object small recorded tableSpec shstrtab named
      (free.sections spec (List.mem_of_getElem? there))
  · have exists_ := formed.written index (List.mem_map_of_mem member)
    exact bytes (List.getElem?_eq_getElem exists_) (before member)
  · obtain ⟨place, placed, above, below⟩ := covers_object small exists_ covers
    have inside := placement_inside placed
    rw [shoff_object small, fileHeader_object]
    exact ⟨inside.1.trans above, below.trans_le inside.2⟩
  · obtain ⟨place, placed, here⟩ := covers_object small exists_ covers
    obtain ⟨placeOther, placedOther, there⟩ := covers_object small existsOther coversOther
    exact placement_apart placed placedOther here there
  · rw [symbolAt there]
  · have tableSpec := formed.generated (rfl : Description.initial.sections[2]? = some ⟨literal ".strtab", SHT_STRTAB, 0, 0, 0, 4, 0⟩)
    have names : description.symbolNames = (description.symbols.map Prod.fst).map terminated := by
      rw [List.map_map]; rfl
    have named : (description.symbols.map Prod.fst)[index]? = some name := by
      rw [List.getElem?_map, there]; rfl
    rw [names] at strtab
    rw [symbolName, symbolAt there, header_completed small symtabSpec, names]
    exact stringIn_object small recorded tableSpec strtab named
      (free.symbols _ (List.mem_of_getElem? there))
  · obtain ⟨_, spec, _⟩ := formed.tables table member
    rw [entryOf, bytes spec (before (formed.final table member (final table member)).1),
      header_completed small spec]
    exact Record.read_encodeAll there
  · obtain ⟨_, _, spec⟩ := formed.tables table member
    rw [entryOf, bytes spec (before (formed.final table member (final table member)).2),
      header_completed small spec]
    exact Record.read_encodeAll there
  · obtain ⟨_, rel, rela⟩ := formed.tables table member
    have sections := small.sections
    have index {number : Nat} (exists_ : number < description.sections.length) :
      (UInt32.ofNat number).toNat = number :=
      UInt32.toNat_ofNat_of_lt' (exists_.trans (sections.trans (by decide)))
    obtain rfl | rfl : part = table.rel ∨ part = table.rel + 1 := by simpa using mine
    · rw [header_completed small rel]
      exact ⟨index, index⟩
    · rw [header_completed small rela]
      exact ⟨index, index⟩

end Description

def Call.Plain : Call → Prop
  | .createSection name _ _ | .addSymbol name _ | .addUndefinedSymbol name _
  | .addRelocations name _ _ => 0 ∉ name
  | .addRel _ _ | .addRela _ _ | .finalizeRelocations _ | .writeSection _ _ => True

instance : DecidablePred Call.Plain
  | .createSection name _ _ | .addSymbol name _ | .addUndefinedSymbol name _
  | .addRelocations name _ _ => inferInstanceAs (Decidable (0 ∉ name))
  | .addRel _ _ | .addRela _ _ | .finalizeRelocations _
  | .writeSection _ _ => inferInstanceAs (Decidable True)

namespace Description
variable {description : Description} {call : Call} {calls : List Call}

private theorem Free.push (free : description.Free) {spec : SectionSpec} (plain : 0 ∉ spec.name) :
    (description.push spec).Free where
  sections := List.forall_mem_append.mpr ⟨free.sections, List.forall_mem_singleton.mpr plain⟩
  symbols := free.symbols

private theorem Free.addSymbol (free : description.Free) {name : List UInt8} (plain : 0 ∉ name)
    (symbol : Sym) : (description.addSymbol name symbol).Free where
  sections := free.sections
  symbols := List.forall_mem_append.mpr ⟨free.symbols, List.forall_mem_singleton.mpr plain⟩

private theorem step_free : (description.step call).2.Free ↔ description.Free ∧ call.Plain := by
  have pushed {other : Description} {spec : SectionSpec} (free : (other.push spec).Free) :
    other.Free ∧ 0 ∉ spec.name := by
    obtain ⟨sections, last⟩ := List.forall_mem_append.mp free.sections
    exact ⟨⟨sections, free.symbols⟩, last _ (List.mem_singleton_self _)⟩
  have added {name : List UInt8} {symbol : Sym} (free : (description.addSymbol name symbol).Free) :
    description.Free ∧ 0 ∉ name := by
    obtain ⟨symbols, last⟩ := List.forall_mem_append.mp free.symbols
    exact ⟨⟨free.sections, symbols⟩, last _ (List.mem_singleton_self _)⟩
  have unchanged {other : Description} (sections : other.sections = description.sections)
    (symbols : other.symbols = description.symbols) :
      other.Free ↔ description.Free ∧ True := by
    refine ⟨fun free => ⟨⟨?_, ?_⟩, trivial⟩, fun free => ⟨?_, ?_⟩⟩
    · exact sections ▸ free.sections
    · exact symbols ▸ free.symbols
    · exact sections ▸ free.1.sections
    · exact symbols ▸ free.1.symbols
  cases call with
  | createSection name type flags => exact ⟨pushed, fun free => free.1.push free.2⟩
  | addSymbol name symbol => exact ⟨added, fun free => free.1.addSymbol free.2 symbol⟩
  | addUndefinedSymbol name symbol => exact ⟨added, fun free => free.1.addSymbol free.2 _⟩
  | addRelocations nameSuffix symtabIndex targetIndex =>
    constructor
    · intro free
      obtain ⟨first, _⟩ := pushed ⟨free.sections, free.symbols⟩
      obtain ⟨before, plain⟩ := pushed first
      exact ⟨before, fun zero => plain (List.mem_append_right _ zero)⟩
    · rintro ⟨free, plain⟩
      have rel : 0 ∉ literal ".rel" ++ nameSuffix := fun zero => (List.mem_append.mp zero).elim (by decide) plain
      have rela : 0 ∉ literal ".rela" ++ nameSuffix := fun zero => (List.mem_append.mp zero).elim (by decide) plain
      have both := (@Free.push _ free (relocationSpec (literal ".rel") nameSuffix SHT_REL 8 symtabIndex targetIndex) rel).push
        (show 0 ∉ (relocationSpec (literal ".rela") nameSuffix SHT_RELA 12 symtabIndex targetIndex).name from rela)
      exact ⟨both.sections, both.symbols⟩
  | addRel number relocation =>
    cases there : description.tables[number]? with
    | some table => simp only [step, there]; exact unchanged rfl rfl
    | none => simp only [step, there]; exact unchanged rfl rfl
  | addRela number relocation =>
    cases there : description.tables[number]? with
    | some table => simp only [step, there]; exact unchanged rfl rfl
    | none => simp only [step, there]; exact unchanged rfl rfl
  | finalizeRelocations number =>
    cases there : description.tables[number]? with
    | some table => simp only [step, there]; exact unchanged rfl rfl
    | none => simp only [step, there]; exact unchanged rfl rfl
  | writeSection index stream => exact unchanged rfl rfl

private theorem describe_free :
    (description.describe calls).2.Free ↔ description.Free ∧ ∀ call ∈ calls, call.Plain := by
  induction calls generalizing description with
  | nil => exact ⟨fun free => ⟨free, nofun⟩, fun free => free.1⟩
  | cons call calls ih =>
    have tail : (description.describe (call :: calls)).2 =
      ((description.step call).2.describe calls).2 := rfl
    rw [tail, ih, step_free, List.forall_mem_cons, and_assoc]

private theorem initial_free : Free initial where
  sections := by decide
  symbols := by decide

end Description

private theorem Describes.free {file : List UInt8} {description : Description}
    (describes : Describes file description) : description.Free where
  sections spec member := by
    obtain ⟨index, there⟩ := List.mem_iff_getElem?.mp member
    have named := (describes.sections index spec there).2
    rw [sectionName, stringIn] at named
    exact readString_free named
  symbols symbol member := by
    obtain ⟨index, there⟩ := List.mem_iff_getElem?.mp member
    obtain ⟨_, named⟩ := describes.symbols index symbol.1 symbol.2 there
    rw [symbolName, stringIn] at named
    exact readString_free named

/-- The generator succeeds, the calls have returned the numbers of what they have added, and the
file is what has been asked for, if and only if every symbol passes the assertion and no name
contains a zero byte. -/
theorem generate_faithful_iff (indeterminate : Fin 16 → UInt8) {calls : List Call}
    (legal : Description.initial.Legal calls)
    (small : ∀ numbers file, generate indeterminate calls = .ok (numbers, file) →
      file.length < 2 ^ 32 ∧ (Description.initial.describe calls).2.sections.length < 2 ^ 16) :
    (∃ file, generate indeterminate calls = .ok ((Description.initial.describe calls).1, file) ∧
      Describes file (Description.initial.describe calls).2) ↔
      ∀ call ∈ calls, call.Asserted ∧ call.Plain := by
  obtain ⟨session, constructed, told⟩ := Session.construct_matches
  constructor
  · rintro ⟨file, generated, describes⟩ call member
    obtain ⟨_, started, generated⟩ := bind_ok.mp generated
    obtain ⟨_, played, _⟩ := bind_ok.mp generated
    exact ⟨Session.play_asserted played call member,
      (Description.describe_free.mp describes.free).2 call member⟩
  · intro good
    obtain ⟨after, played, done, formed, final⟩ :=
      Session.play_matches told .initial legal fun call member => (good call member).1
    have finalized := Generator.finalize_object done.generator formed indeterminate
    have generated : generate indeterminate calls =
        .ok ((Description.initial.describe calls).1,
          (Description.initial.describe calls).2.object indeterminate) :=
      bind_ok.mpr ⟨session, constructed, bind_ok.mpr ⟨_, played, bind_ok.mpr ⟨_, finalized, rfl⟩⟩⟩
    obtain ⟨bytes, sections⟩ := small _ _ generated
    have free := Description.describe_free.mpr ⟨Description.initial_free,
      fun call member => (good call member).2⟩
    exact ⟨_, generated, Description.object_describes ⟨bytes, sections⟩ formed final free⟩

/-- A section with four bytes, a symbol in it and a relocation that refers to the symbol, as the
user of the generator describes them. -/
def linked : List Call :=
  [.createSection (literal ".embed") SHT_PROGBITS 2, .addRelocations (literal ".embed") 3 4, .addSymbol (literal "base") ⟨0, 0, 4, 0x11, 0, 4⟩,
    .addRel 0 ⟨0, 0x102⟩, .finalizeRelocations 0, .writeSection 4 (.filled [1, 2, 3, 4])]

theorem generate_faithful_iff_linked :
    ∃ file, generate (fun _ => 0) linked = .ok ([4, 5, 1, 0, 0, 0], file) ∧
    Describes file (Description.initial.describe linked).2 := by
  have size : (generate (fun _ => 0) linked).toOption.map
    (fun result => decide (result.2.length < 2 ^ 32)) = some true := by decide +kernel
  have unowned : ¬((Description.initial.describe (linked.take 5)).2.Owned 4) := by
    rintro (same | same | same | ⟨table, member, same⟩)
    · cases same
    · cases same
    · cases same
    · obtain rfl := List.mem_singleton.mp member
      exact absurd same (by decide)
  have legal : Description.initial.Legal linked := by
    refine ⟨trivial, trivial, trivial, ⟨_, rfl, rfl⟩, ⟨_, rfl, rfl⟩,
      ⟨by decide, unowned, by decide⟩, fun table member => ?_⟩
    obtain rfl := List.mem_singleton.mp member
    rfl
  refine (generate_faithful_iff (fun _ => 0) legal fun numbers file generated => ⟨?_,
    by decide⟩).mpr ?_
  · rw [generated] at size
    exact of_decide_eq_true (Option.some.inj size)
  · decide

/-- A function is a symbol that does not pass the assertion, although it is global. -/
theorem generate_aborts : Description.initial.Legal [.addSymbol (literal "main") ⟨0, 0, 0, 0x12, 0, 0⟩] ∧
    ∀ indeterminate, generate indeterminate [.addSymbol (literal "main") ⟨0, 0, 0, 0x12, 0, 0⟩] = .error .assertion :=
  ⟨⟨trivial, nofun⟩, fun _ => rfl⟩

end PicoOs.Tools
