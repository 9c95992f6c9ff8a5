import PicoOs.Proofs.FlashAlignment
import PicoOs.Proofs.ObjectFiles
import PicoOs.Tools.FlashImage

/-! What a sequence of calls has put into the section `.embed`, file by file: where the contents
and the record of a file are, what they contain before they are linked, and the symbols and the
relocations that belong to them. -/

namespace PicoOs.Tools
open Library Elf
open Kernel (literal ModeFlags)

/-- The generator has been told what the description says, and the user has kept the rules. -/
structure Session.Told (session : Session) (description : Description) : Prop where
  matches_ : session.Matches description
  formed : description.Formed

theorem Session.Told.execute {session after : Session} {description : Description} {call : Call}
    {number : Nat} (told : session.Told description)
    (done : session.execute call = .ok (number, after)) (permitted : description.Permits call) :
    number = (description.step call).1 ∧ after.Told (description.step call).2 := by
  obtain ⟨result, executed, matches_⟩ :=
    Session.execute_matches told.matches_ told.formed permitted (Session.execute_asserted done)
  rw [executed] at done
  obtain ⟨rfl, rfl⟩ := Prod.mk.inj (Except.ok.inj done)
  exact ⟨rfl, matches_, Description.step_formed told.formed permitted⟩

def flashSections : List SectionSpec := Description.initial.sections ++
  [⟨literal ".embed", SHT_PROGBITS, SHF_ALLOC, 0, 0, 4, 0⟩, Description.relocationSpec (literal ".rel") (literal ".embed") SHT_REL 8 3 4,
    Description.relocationSpec (literal ".rela") (literal ".embed") SHT_RELA 12 3 4]

def flashDescription (symbols : List (List UInt8 × Sym)) (rels : List Rel) : Description where
  sections := flashSections
  symbols := symbols
  tables := [⟨literal ".embed", 3, 4, 5, rels, [], false⟩]
  writes := []

def headSymbols : List (List UInt8 × Sym) :=
  [([], SymbolTable.undefinedSymbol), (literal "__flash_base", objectSymbol 0 0 4)]

def fileSymbols (inode : UInt32) (start size : Nat) : List (List UInt8 × Sym) :=
  (literal "__flash_data_" ++ decimal inode, objectSymbol start size 4) ::
    (literal "__flash_info_" ++ decimal inode, objectSymbol (start + size) 40 4) ::
    if inode = 2 then [(literal "__flash_root", objectSymbol (start + size) 40 4)] else []

def fileRelocation (record symbol : Nat) : Rel :=
  ⟨.ofNat FileInfo.dataOffset + .ofNat record, relocationInfo symbol⟩

def entryRelocation (start offset : Nat) : Rel :=
  ⟨.ofNat (offset + FlashDirectoryInfo.infoRawOffset) + .ofNat start, relocationInfo 1⟩

/-- A file, its contents as they are written, where they start, and the number of their symbol. -/
structure Item where
  inode : UInt32
  node : Node
  contents : List UInt8
  start : Nat
  symbol : Nat

namespace Item

def record (item : Item) : Nat := item.start + item.contents.length
def stop (item : Item) : Nat := item.record + 40

def bytes (item : Item) : List UInt8 := FileSystem.fileBytes item.inode item.node.mode item.contents

def symbols (item : Item) : List (List UInt8 × Sym) :=
  fileSymbols item.inode item.start item.contents.length

def rels (item : Item) : List Rel :=
  fileRelocation item.record item.symbol :: (FileSystem.entryOffsets 0 item.node.children.length).map (entryRelocation item.start)

/-- What the numbers of files lead to, when these files have been added. -/
def offsets (items : List Item) : UInt32 → UInt32 :=
  items.foldl (fun offsets item => Function.update offsets item.inode (.ofNat item.record)) fun _ => 0

def Stores (item : Item) (offsets : UInt32 → UInt32) : Prop :=
  match item.node with
  | .file _ bytes => item.contents = bytes
  | .directory entries => ∃ indeterminate : List UInt8 → Fin 252 → UInt8,
    item.contents = Record.encodeAll (entries.map fun entry =>
      (⟨FlashDirectoryInfo.strlcpy (indeterminate entry.1) entry.1,
        offsets entry.2⟩ : FlashDirectoryInfo))

structure Follows (item : Item) (items : List Item) : Prop where
  start : item.start = (items.flatMap bytes).length
  symbol : item.symbol = (headSymbols ++ items.flatMap symbols).length
  stores : item.Stores (offsets items)

inductive Laid : List Item → Prop where
  | empty : Laid []
  | add {items : List Item} {item : Item} (laid : Laid items) (follows : item.Follows items) :
      Laid (items ++ [item])

end Item

namespace FileSystem
variable {fs after : FileSystem} {items : List Item} {symbols : List (List UInt8 × Sym)}
  {rels : List Rel} {session : Session}
  {stream : MemoryStream} {mode : ModeFlags} {inodeNumber : UInt32} {added : Added} {number : Nat}

theorem addSymbol_told (told : session.Told (flashDescription symbols rels)) {name : List UInt8}
    {symbol : Sym} {after : Session}
    (done : session.execute (.addSymbol name symbol) = .ok (number, after)) :
    number = symbols.length ∧ after.Told (flashDescription (symbols ++ [(name, symbol)]) rels) :=
  told.execute done trivial

theorem addRel_told (told : session.Told (flashDescription symbols rels)) {relocation : Rel}
    {after : Session}
    (done : session.execute (.addRel 0 relocation) = .ok (number, after)) :
    after.Told (flashDescription symbols (rels ++ [relocation])) :=
  (told.execute done ⟨_, rfl, rfl⟩).2

structure Prepared (fs : FileSystem) : Prop where
  relocs : fs.dataRelocs = 0
  index : fs.dataIndex = 4
  base : fs.baseSymbol = 1
  unfinished : fs.finalized = false

structure Built (fs : FileSystem) (items : List Item) : Prop extends fs.Prepared where
  told : fs.generator.Told (flashDescription (headSymbols ++ items.flatMap Item.symbols) (items.flatMap Item.rels))
  stream : fs.dataStream = .filled (items.flatMap Item.bytes)
  offsets : fs.inodeToOffset = Item.offsets items

theorem exportRoot_told (prepared : fs.Prepared)
    (told : session.Told (flashDescription symbols rels)) {inode : UInt32} {inodeOffset : Nat}
    {exported : Session} (done : fs.exportRoot session inode inodeOffset = .ok exported) :
    exported.Told (flashDescription (symbols ++ if inode = 2 then [(literal "__flash_root", objectSymbol inodeOffset 40 4)] else []) rels) := by
  unfold exportRoot at done
  rw [prepared.index] at done
  split at done
  next root =>
    obtain ⟨⟨_, named⟩, addedRoot, same⟩ := bind_ok.mp done
    obtain rfl := Except.ok.inj same
    rw [if_pos root]
    exact (addSymbol_told told addedRoot).2
  next other =>
    obtain rfl := Except.ok.inj done
    rwa [if_neg other, List.append_nil]

private theorem addFile_told (prepared : fs.Prepared)
    (told : fs.generator.Told (flashDescription symbols rels)) {written : List UInt8}
    (filled : fs.dataStream = .filled written)
    (done : fs.addFile stream mode inodeNumber = .ok (added, after)) :
    after.generator.Told (flashDescription (symbols ++
      fileSymbols added.inode written.length stream.size)
      (rels ++ [fileRelocation (written.length + stream.size) symbols.length])) := by
  unfold addFile MemoryStream.writeStream MemoryStream.writeObject at done
  dsimp only at done
  rw [filled, MemoryStream.filled_writeBytes, MemoryStream.filled_writeBytes, prepared.relocs,
    prepared.index] at done
  obtain ⟨⟨dataSymbol, first⟩, addedData, done⟩ := bind_ok.mp done
  obtain ⟨⟨_, second⟩, addedInfo, done⟩ := bind_ok.mp done
  obtain ⟨third, exported, done⟩ := bind_ok.mp done
  obtain ⟨⟨_, last⟩, addedRel, done⟩ := bind_ok.mp done
  obtain ⟨rfl, rfl⟩ := Prod.mk.inj (Except.ok.inj done)
  obtain ⟨rfl, toldData⟩ := addSymbol_told told addedData
  obtain ⟨_, toldInfo⟩ := addSymbol_told toldData addedInfo
  rw [List.length_append] at toldInfo exported addedRel
  have toldRoot := exportRoot_told prepared toldInfo exported
  rw [List.append_assoc, List.append_assoc] at toldRoot
  exact addRel_told toldRoot addedRel

private theorem relocateEntries_told (prepared : fs.Prepared)
    (told : fs.generator.Told (flashDescription symbols rels)) {loadOffset : Nat}
    {infoOffsets : List Nat} (done : relocateEntries loadOffset infoOffsets fs = .ok after) :
    after.generator.Told (flashDescription symbols (rels ++
      infoOffsets.map (entryRelocation loadOffset))) := by
  induction infoOffsets generalizing fs rels with
  | nil =>
    obtain rfl := Except.ok.inj done
    rwa [List.map_nil, List.append_nil]
  | cons infoOffset infoOffsets ih =>
    obtain ⟨⟨_, first⟩, added, rest⟩ := bind_ok.mp done
    rw [prepared.relocs, prepared.base] at added
    have next : Prepared { fs with generator := first } :=
      ⟨prepared.relocs, prepared.index, prepared.base, prepared.unfinished⟩
    have later := ih next (addRel_told told added) rest
    rw [List.append_assoc] at later
    exact later

def nextItem (items : List Item) (inode : UInt32) (node : Node) (contents : List UInt8) : Item :=
  ⟨inode, node, contents, (items.flatMap Item.bytes).length,
    (headSymbols ++ items.flatMap Item.symbols).length⟩

theorem addFile_built (built : fs.Built items)
    (done : fs.addFile stream mode inodeNumber = .ok (added, after)) {node : Node}
    (same : node.mode = mode) :
    after.Prepared ∧ after.dataStream = .filled ((items ++
      [nextItem items added.inode node stream.bytes]).flatMap Item.bytes) ∧
      after.inodeToOffset = Item.offsets (items ++ [nextItem items added.inode node stream.bytes]) ∧
      after.generator.Told (flashDescription
        (headSymbols ++ (items ++ [nextItem items added.inode node stream.bytes]).flatMap Item.symbols)
        (items.flatMap Item.rels ++ [fileRelocation (nextItem items added.inode node stream.bytes).record
          (nextItem items added.inode node stream.bytes).symbol])) := by
  have told := addFile_told built.toPrepared built.told built.stream done
  obtain ⟨place, generator, rfl⟩ := addFile_ok built.stream done
  refine ⟨⟨built.relocs, built.index, built.base, built.unfinished⟩, ?_, ?_, ?_⟩
  · rw [List.flatMap_append, List.flatMap_singleton, Item.bytes, nextItem, same]
  · rw [Item.offsets, List.foldl_append, ← Item.offsets, ← built.offsets]
    have record : added.inodeOffset = (nextItem items added.inode node stream.bytes).record :=
      congrArg Added.inodeOffset place
    rw [record]
    rfl
  · rw [List.flatMap_append, List.flatMap_singleton, ← List.append_assoc]
    exact told

/-- The step lemma: a call adds a file behind the others. -/
theorem execute_built (built : fs.Built items) {call : FileCall} {outcome : Outcome}
    (done : fs.execute call = .ok (outcome, after)) :
    ∃ item : Item, item.Follows items ∧ after.Built (items ++ [item]) ∧
    (item.inode, item.node) = (outcome.inode, call.node) ∧
      item.contents.length = call.dataSize := by
  have file {stream : MemoryStream} {mode : ModeFlags} {inodeNumber : UInt32} {added : Added}
    {last : FileSystem}
      (addedFile : fs.addFile stream mode inodeNumber = .ok (added, last)) :
      ∃ item : Item, item.Follows items ∧ last.Built (items ++ [item]) ∧
        (item.inode, item.node) = (added.inode, .file mode stream.bytes) ∧
        item.contents.length = stream.size := by
    obtain ⟨prepared, filled, offsets, told⟩ :=
      addFile_built built addedFile (rfl : (Node.file mode stream.bytes).mode = mode)
    refine ⟨nextItem items added.inode (.file mode stream.bytes) stream.bytes, ⟨rfl, rfl, rfl⟩,
      ⟨prepared, ?_, filled, offsets⟩, rfl, rfl⟩
    rw [@List.flatMap_append _ _ items _ Item.rels, List.flatMap_singleton]
    exact told
  have directory {files : Files} {inodeNumber : UInt32} {added : Added} {infoOffsets : List Nat}
    {last : FileSystem}
      (addedDirectory : fs.addDirectory files inodeNumber = .ok (added, infoOffsets, last)) :
      ∃ item : Item, item.Follows items ∧ last.Built (items ++ [item]) ∧
        (item.inode, item.node) = (added.inode, .directory files.entries) ∧
        item.contents.length = files.entries.length * infoSize := by
    have entries := fs.writeEntries_filled files files.entries []
    have empty : MemoryStream.empty = .filled [] := rfl
    unfold addDirectory at addedDirectory
    rw [empty, entries] at addedDirectory
    obtain ⟨⟨placed, middle⟩, addedFile, addedDirectory⟩ := bind_ok.mp addedDirectory
    obtain ⟨final, relocated, addedDirectory⟩ := bind_ok.mp addedDirectory
    obtain ⟨rfl, rest⟩ := Prod.mk.inj (Except.ok.inj addedDirectory)
    obtain ⟨rfl, rfl⟩ := Prod.mk.inj rest
    obtain ⟨prepared, filled, offsets, told⟩ :=
      addFile_built built addedFile (rfl : (Node.directory files.entries).mode = ModeFlags.directory)
    obtain ⟨place, _⟩ := addFile_ok built.stream addedFile
    have relocatedTold := relocateEntries_told prepared told relocated
    obtain ⟨generator, rfl⟩ := relocateEntries_ok relocated
    refine ⟨nextItem items placed.inode (.directory files.entries) (fs.directoryBytes files),
      ⟨rfl, rfl, ⟨files.indeterminate, ?_⟩⟩,
      ⟨⟨prepared.relocs, prepared.index, prepared.base, prepared.unfinished⟩, ?_, filled, offsets⟩,
        rfl, length_directoryBytes fs files⟩
    · rw [← built.offsets]
      rfl
    · have load : placed.loadOffset = (items.flatMap Item.bytes).length :=
        congrArg Added.loadOffset place
      have count : (Node.directory files.entries).children.length = files.entries.length :=
        List.length_map _
      have rels : (nextItem items placed.inode (.directory files.entries) (fs.directoryBytes files)).rels =
          [fileRelocation (nextItem items placed.inode (.directory files.entries) (fs.directoryBytes files)).record
            (nextItem items placed.inode (.directory files.entries) (fs.directoryBytes files)).symbol] ++
          (entryOffsets 0 files.entries.length).map (entryRelocation placed.loadOffset) := by
        rw [Item.rels, load, ← count]
        rfl
      rw [List.append_assoc] at relocatedTold
      rw [@List.flatMap_append _ _ items _ Item.rels, List.flatMap_singleton, rels]
      exact relocatedTold
  cases call with
  | addFile stream mode inodeNumber =>
    obtain ⟨⟨added, last⟩, addedFile, done⟩ := bind_ok.mp done
    obtain ⟨rfl, rfl⟩ := Prod.mk.inj (Except.ok.inj done)
    exact file addedFile
  | addHostFile contents mode =>
    obtain ⟨⟨added, last⟩, addedFile, done⟩ := bind_ok.mp done
    obtain ⟨rfl, rfl⟩ := Prod.mk.inj (Except.ok.inj done)
    obtain ⟨_, _, addedFile⟩ := bind_ok.mp addedFile
    have empty : MemoryStream.empty = .filled [] := rfl
    rw [empty, MemoryStream.filled_writeBytes, List.nil_append] at addedFile
    exact file addedFile
  | addDirectory files inodeNumber | addRootDirectory files =>
    obtain ⟨⟨added, infoOffsets, last⟩, addedDirectory, done⟩ := bind_ok.mp done
    obtain ⟨rfl, rfl⟩ := Prod.mk.inj (Except.ok.inj done)
    exact directory addedDirectory

/-- The run lemma. -/
theorem play_built {calls : List FileCall} {outcomes : List Outcome} (built : fs.Built items)
    (laid : Item.Laid items)
    (played : fs.play calls = .ok (outcomes, after)) :
    ∃ more : List Item, Item.Laid (items ++ more) ∧ after.Built (items ++ more) ∧
      more.map (fun item => (item.inode, item.node)) = Tools.added outcomes calls ∧
      more.map (fun item => item.contents.length) = calls.map FileCall.dataSize := by
  induction calls generalizing fs items outcomes with
  | nil =>
    obtain ⟨rfl, rfl⟩ := Prod.mk.inj (Except.ok.inj played)
    exact ⟨[], by rwa [List.append_nil], by rwa [List.append_nil], rfl, rfl⟩
  | cons call calls ih =>
    obtain ⟨⟨outcome, middle⟩, done, rest⟩ := bind_ok.mp played
    obtain ⟨⟨others, last⟩, further, same⟩ := bind_ok.mp rest
    obtain ⟨rfl, rfl⟩ := Prod.mk.inj (Except.ok.inj same)
    obtain ⟨item, follows, builtMiddle, named, size⟩ := execute_built built done
    obtain ⟨more, laidMore, builtMore, names, sizes⟩ := ih builtMiddle (.add laid follows) further
    refine ⟨item :: more, ?_, ?_, ?_, ?_⟩
    · rwa [List.append_assoc] at laidMore
    · rwa [List.append_assoc] at builtMore
    · rw [List.map_cons, names, named]
      rfl
    · rw [List.map_cons, sizes, size, List.map_cons]

theorem construct_built (made : Session.construct = .ok session)
    (constructed : construct session = .ok fs) : fs.Built [] := by
  obtain ⟨started, starts, matches_⟩ := Session.construct_matches
  obtain rfl := Except.ok.inj (made.symm.trans starts)
  have told : session.Told .initial := ⟨matches_, .initial⟩
  obtain ⟨⟨dataIndex, first⟩, created, constructed⟩ := bind_ok.mp constructed
  obtain ⟨symtabIndex, linked, constructed⟩ := bind_ok.mp constructed
  obtain ⟨⟨_, second⟩, relocated, constructed⟩ := bind_ok.mp constructed
  obtain ⟨⟨baseSymbol, third⟩, based, constructed⟩ := bind_ok.mp constructed
  obtain ⟨rfl, toldFirst⟩ := told.execute created trivial
  rw [toldFirst.matches_.generator.symtab] at linked
  obtain rfl : 3 = symtabIndex := Except.ok.inj linked
  obtain ⟨_, toldSecond⟩ := toldFirst.execute relocated trivial
  obtain ⟨rfl, toldThird⟩ := toldSecond.execute based trivial
  rw [← Except.ok.inj constructed]
  refine ⟨⟨?_, rfl, rfl, rfl⟩, toldThird, rfl, rfl⟩
  exact congrArg List.length toldFirst.matches_.tables

def flashed (items : List Item) : Description where
  sections := flashSections
  symbols := headSymbols ++ items.flatMap Item.symbols
  tables := [⟨literal ".embed", 3, 4, 5, items.flatMap Item.rels, [], true⟩]
  writes := [(5, Record.encodeAll (items.flatMap Item.rels)),
    (6, Record.encodeAll ([] : List Rela)), (4, items.flatMap Item.bytes)]

/-- The contents may be written when the relocations are in their sections. -/
theorem permits_contents {stream : MemoryStream} :
    ((flashDescription symbols rels).step (.finalizeRelocations 0)).2.Permits
      (.writeSection 4 stream) := by
  refine ⟨(by decide : 4 < 7), ?_, (by decide : 4 ∉ [5, 6])⟩
  rintro (same | same | same | ⟨table, member, same⟩)
  · cases same
  · cases same
  · cases same
  · obtain rfl := List.mem_singleton.mp member
    have own : 4 = 5 ∨ 4 = 6 := same
    omega

theorem finalize_told (built : fs.Built items) (done : fs.finalize = .ok after) :
    after.generator.Told (flashed items) := by
  obtain ⟨_, _, done⟩ := bind_ok.mp done
  obtain ⟨⟨_, first⟩, finalized, done⟩ := bind_ok.mp done
  obtain ⟨⟨_, last⟩, written, done⟩ := bind_ok.mp done
  rw [← Except.ok.inj done]
  rw [built.relocs] at finalized
  rw [built.index, built.stream] at written
  have toldFirst := (built.told.execute finalized ⟨_, rfl, rfl⟩).2
  exact (toldFirst.execute written permits_contents).2

end FileSystem

/-! The tool does not stop, as long as no host file is empty. -/

theorem Session.Told.never {session : Session} {description : Description} {call : Call}
    {fault : ToolFault} (told : session.Told description)
    (failed : session.execute call = .error fault) (permitted : description.Permits call)
    (asserted : call.Asserted) : False := by
  obtain ⟨after, executed, _⟩ :=
    Session.execute_matches told.matches_ told.formed permitted asserted
  rw [executed] at failed
  cases failed

/-- `add_host_file` needs something to map. -/
def FileCall.Mapped : FileCall → Prop
  | .addHostFile contents _ => contents ≠ []
  | .addFile _ _ _ | .addDirectory _ _ | .addRootDirectory _ => True

instance : DecidablePred FileCall.Mapped
  | .addHostFile contents _ => inferInstanceAs (Decidable (contents ≠ []))
  | .addFile _ _ _ | .addDirectory _ _ | .addRootDirectory _ => inferInstanceAs (Decidable True)

namespace FileSystem
variable {fs : FileSystem} {items : List Item} {symbols : List (List UInt8 × Sym)} {rels : List Rel}
  {fault : ToolFault}

private theorem construct_returns :
    ∃ session fs, Session.construct = .ok session ∧ construct session = .ok fs := ⟨_, _, rfl, rfl⟩

private theorem addSymbol_never {session : Session}
    (told : session.Told (flashDescription symbols rels)) {name : List UInt8}
    {value size index : Nat} :
    session.execute (.addSymbol name (objectSymbol value size index)) ≠ .error fault :=
  fun failed => told.never failed trivial (rfl : bindAccepted 0x11 = true)

theorem addFile_never (built : fs.Built items) {stream : MemoryStream} {mode : ModeFlags}
    {inodeNumber : UInt32} :
    fs.addFile stream mode inodeNumber ≠ .error fault := by
  intro failed
  obtain failed | ⟨⟨_, first⟩, addedData, failed⟩ := bind_error.mp failed
  · exact addSymbol_never built.told failed
  have toldData := (addSymbol_told built.told addedData).2
  obtain failed | ⟨⟨_, second⟩, addedInfo, failed⟩ := bind_error.mp failed
  · exact addSymbol_never toldData failed
  have toldInfo := (addSymbol_told toldData addedInfo).2
  obtain failed | ⟨third, exported, failed⟩ := bind_error.mp failed
  · unfold exportRoot at failed
    split at failed
    next =>
      obtain failed | ⟨_, _, failed⟩ := bind_error.mp failed
      · exact addSymbol_never toldInfo failed
      · cases failed
    next => cases failed
  have toldRoot := exportRoot_told built.toPrepared toldInfo exported
  obtain failed | ⟨_, _, failed⟩ := bind_error.mp failed
  · rw [built.relocs] at failed
    exact toldRoot.never failed ⟨_, rfl, rfl⟩ trivial
  · cases failed

private theorem relocateEntries_never (prepared : fs.Prepared)
    (told : fs.generator.Told (flashDescription symbols rels)) {loadOffset : Nat}
    {infoOffsets : List Nat} : relocateEntries loadOffset infoOffsets fs ≠ .error fault := by
  induction infoOffsets generalizing fs rels with
  | nil =>
    intro failed
    cases failed
  | cons infoOffset infoOffsets ih =>
    intro failed
    obtain failed | ⟨⟨_, first⟩, added, rest⟩ := bind_error.mp failed
    · rw [prepared.relocs] at failed
      exact told.never failed ⟨_, rfl, rfl⟩ trivial
    · rw [prepared.relocs] at added
      have next : Prepared { fs with generator := first } :=
        ⟨prepared.relocs, prepared.index, prepared.base, prepared.unfinished⟩
      exact ih next (addRel_told told added) rest

private theorem addDirectory_never (built : fs.Built items) {files : Files} {inodeNumber : UInt32} :
    fs.addDirectory files inodeNumber ≠ .error fault := by
  intro failed
  obtain failed | ⟨⟨placed, middle⟩, addedFile, failed⟩ := bind_error.mp failed
  · exact addFile_never built failed
  obtain ⟨prepared, _, _, told⟩ :=
    addFile_built built addedFile (rfl : (Node.directory files.entries).mode = ModeFlags.directory)
  obtain failed | ⟨_, _, failed⟩ := bind_error.mp failed
  · exact relocateEntries_never prepared told failed
  · cases failed

private theorem execute_never (built : fs.Built items) {call : FileCall} (mapped : call.Mapped) :
    fs.execute call ≠ .error fault := by
  intro failed
  cases call with
  | addFile stream mode inodeNumber =>
    obtain failed | ⟨_, _, failed⟩ := bind_error.mp failed
    · exact addFile_never built failed
    · cases failed
  | addHostFile contents mode =>
    obtain failed | ⟨_, _, failed⟩ := bind_error.mp failed
    · have checked : check (contents ≠ []) = .ok () := if_pos mapped
      obtain failed | ⟨_, _, failed⟩ := bind_error.mp failed
      · rw [checked] at failed
        cases failed
      · exact addFile_never built failed
    · cases failed
  | addDirectory files inodeNumber | addRootDirectory files =>
    obtain failed | ⟨_, _, failed⟩ := bind_error.mp failed
    · exact addDirectory_never built failed
    · cases failed

private theorem play_never (built : fs.Built items) {calls : List FileCall}
    (mapped : ∀ call ∈ calls, call.Mapped) :
    fs.play calls ≠ .error fault := by
  induction calls generalizing fs items with
  | nil =>
    intro failed
    cases failed
  | cons call calls ih =>
    rw [List.forall_mem_cons] at mapped
    intro failed
    obtain failed | ⟨⟨outcome, middle⟩, done, failed⟩ := bind_error.mp failed
    · exact execute_never built mapped.1 failed
    obtain ⟨item, _, builtMiddle, _⟩ := execute_built built done
    obtain failed | ⟨_, _, failed⟩ := bind_error.mp failed
    · exact ih builtMiddle mapped.2 failed
    · cases failed

private theorem finalize_never (built : fs.Built items) : fs.finalize ≠ .error fault := by
  intro failed
  have checked : check (fs.finalized = false) = .ok () := if_pos built.unfinished
  obtain failed | ⟨_, _, failed⟩ := bind_error.mp failed
  · rw [checked] at failed
    cases failed
  obtain failed | ⟨⟨_, first⟩, finalized, failed⟩ := bind_error.mp failed
  · rw [built.relocs] at failed
    exact built.told.never failed ⟨_, rfl, rfl⟩ trivial
  rw [built.relocs] at finalized
  have toldFirst := (built.told.execute finalized ⟨_, rfl, rfl⟩).2
  obtain failed | ⟨_, _, failed⟩ := bind_error.mp failed
  · rw [built.index] at failed
    exact toldFirst.never failed permits_contents trivial
  · cases failed

end FileSystem

/-- The object file, and the files that are in it. -/
theorem embed_ok {indeterminate : Fin 16 → UInt8} {calls : List FileCall} {outcomes : List Outcome}
    {object : List UInt8}
    (embedded : embed indeterminate calls = .ok (outcomes, object)) :
    ∃ items : List Item, Item.Laid items ∧
    items.map (fun item => (item.inode, item.node)) = added outcomes calls ∧
      items.map (fun item => item.contents.length) = calls.map FileCall.dataSize ∧
      (FileSystem.flashed items).Formed ∧
      object = (FileSystem.flashed items).object indeterminate := by
  obtain ⟨generator, made, embedded⟩ := bind_ok.mp embedded
  obtain ⟨fs, constructed, embedded⟩ := bind_ok.mp embedded
  obtain ⟨⟨_, filled⟩, played, embedded⟩ := bind_ok.mp embedded
  obtain ⟨final, finalized, embedded⟩ := bind_ok.mp embedded
  obtain ⟨bytes, generated, embedded⟩ := bind_ok.mp embedded
  obtain ⟨rfl, rfl⟩ := Prod.mk.inj (Except.ok.inj embedded)
  obtain ⟨items, laid, built, names, sizes⟩ :=
    FileSystem.play_built (FileSystem.construct_built made constructed) .empty played
  have told := FileSystem.finalize_told built finalized
  have object := Generator.finalize_object told.matches_.generator told.formed indeterminate
  exact ⟨items, laid, names, sizes, told.formed, Except.ok.inj (generated.symm.trans object)⟩

theorem embed_returns (indeterminate : Fin 16 → UInt8) {calls : List FileCall}
    (mapped : ∀ call ∈ calls, call.Mapped) :
    ∃ outcomes object, embed indeterminate calls = .ok (outcomes, object) := by
  cases embedded : embed indeterminate calls with
  | ok result => exact ⟨result.1, result.2, rfl⟩
  | error fault =>
    exfalso
    obtain ⟨session, fs, made, constructed⟩ := FileSystem.construct_returns
    have built := FileSystem.construct_built made constructed
    obtain failed | ⟨_, same, failed⟩ := bind_error.mp embedded
    · cases failed.symm.trans made
    obtain rfl := Except.ok.inj (made.symm.trans same)
    obtain failed | ⟨_, same, failed⟩ := bind_error.mp failed
    · cases failed.symm.trans constructed
    obtain rfl := Except.ok.inj (constructed.symm.trans same)
    obtain failed | ⟨⟨_, filled⟩, played, failed⟩ := bind_error.mp failed
    · exact FileSystem.play_never built mapped failed
    obtain ⟨items, _, filledBuilt, _⟩ := FileSystem.play_built built .empty played
    obtain failed | ⟨final, finalized, failed⟩ := bind_error.mp failed
    · exact FileSystem.finalize_never filledBuilt failed
    have told := FileSystem.finalize_told filledBuilt finalized
    obtain failed | ⟨_, _, failed⟩ := bind_error.mp failed
    · cases failed.symm.trans (Generator.finalize_object told.matches_.generator told.formed indeterminate)
    · cases failed

end PicoOs.Tools
