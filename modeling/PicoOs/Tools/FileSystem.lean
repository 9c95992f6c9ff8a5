import PicoOs.Tools.LibElf

/-! The file system that `ElfEmbed` puts into the section `.embed`. Files are added from the
bottom up: the contents come first, then the record of the file. -/

namespace PicoOs.Tools
open Library Elf
open Kernel (literal ModeFlags)

def SHF_ALLOC : UInt32 := 2

/-- `FileInfo`, as the host declares it. -/
structure FileInfo where
  dev : UInt32
  ino : UInt32
  mode : ModeFlags
  rdev : UInt32
  size : UInt32
  blksize : UInt32
  blocks : UInt32
  uid : UInt32
  gid : UInt32
  data : UInt32
  deriving DecidableEq

instance : Record FileInfo where
  size := 40
  encode info := word info.dev ++ word info.ino ++ word info.mode ++ word info.rdev ++
    word info.size ++ word info.blksize ++
    word info.blocks ++ word info.uid ++ word info.gid ++ word info.data
  decode bytes := ⟨wordAt bytes 0, wordAt bytes 4, wordAt bytes 8, wordAt bytes 12, wordAt bytes 16,
    wordAt bytes 20, wordAt bytes 24,
    wordAt bytes 28, wordAt bytes 32, wordAt bytes 36⟩
  length_encode info := by simp
  decode_encode info := by
    simp only [List.append_assoc, word_fields, wordAt_word, wordAt_last]

/-- `offsetof(FileInfo, m_data)` -/
def FileInfo.dataOffset : Nat := 36

/-- `FlashDirectoryInfo`, as the host declares it. -/
structure FlashDirectoryInfo where
  name : Fin 252 → UInt8
  infoRaw : UInt32

instance : Record FlashDirectoryInfo where
  size := 256
  encode info := List.ofFn info.name ++ word info.infoRaw
  decode bytes := ⟨fun index => bytes.getD index 0, wordAt bytes 252⟩
  length_encode info := by rw [List.length_append, List.length_ofFn, length_word]
  decode_encode info := by
    have name : (fun index : Fin 252 => (List.ofFn info.name ++ word info.infoRaw).getD index 0) =
      info.name := by
      funext index
      rw [List.getD_eq_getElem?_getD,
        List.getElem?_append_left (by rw [List.length_ofFn]; exact index.isLt), List.getElem?_ofFn,
        dif_pos index.isLt, Option.getD_some]
    have raw : wordAt (List.ofFn info.name ++ word info.infoRaw) 252 = info.infoRaw := by
      rw [wordAt_skip (by rw [List.length_ofFn]), List.length_ofFn, Nat.sub_self, wordAt_last]
    rw [name, raw]

namespace FlashDirectoryInfo

/-- `offsetof(FlashDirectoryInfo, m_info_raw)` -/
def infoRawOffset : Nat := 252

/-- `strlcpy` of a name into `m_name`, whose other bytes are not assigned. -/
def strlcpy (indeterminate : Fin 252 → UInt8) (name : List UInt8) : Fin 252 → UInt8 := fun index =>
  let copied := (name.takeWhile (· ≠ 0)).take 251
  if index < copied.length then copied.getD index 0 else if index = copied.length then 0
  else indeterminate index

end FlashDirectoryInfo

/-- `std::map<std::string, uint32_t>`, with what the records of its entries hold behind the
names. -/
structure Files where
  entries : List (List UInt8 × UInt32)
  sorted : entries.Pairwise fun left right => left.1 < right.1
  indeterminate : List UInt8 → Fin 252 → UInt8

/-- `inodeToOffset` has zero for what is not in `m_inode_to_offset`, and `dataRelocs` is a
number of the session. -/
structure FileSystem where
  generator : Session
  dataRelocs : Nat
  dataIndex : Nat
  baseSymbol : Nat
  dataStream : MemoryStream
  inodeToOffset : UInt32 → UInt32
  nextInode : Nat
  finalized : Bool

/-- `Elf32_Sym` of an object in a section. -/
def objectSymbol (value size sectionIndex : Nat) : Sym :=
  ⟨0, .ofNat value, .ofNat size, 0x11, 0, .ofNat sectionIndex⟩

/-- `ELF32_R_INFO(symbol, R_ARM_ABS32)` -/
def relocationInfo (symbol : Nat) : UInt32 := .ofNat (symbol * 2 ^ 8 + 2)

/-- The text of a number in the name of a symbol. -/
def decimal (number : UInt32) : List UInt8 := literal (toString number.toNat)

/-- The number of a file, and where its contents and its record are. -/
structure Added where
  inode : UInt32
  loadOffset : Nat
  inodeOffset : Nat
  deriving DecidableEq

namespace FileSystem

def construct (generator : Session) : Except ToolFault FileSystem := do
  let (dataIndex, generator) ← generator.execute (.createSection (literal ".embed") SHT_PROGBITS SHF_ALLOC)
  let symtabIndex ← valueOf generator.generator.symtab.sectionIndex
  let dataRelocs := generator.tables.length
  let (_, generator) ← generator.execute (.addRelocations (literal ".embed") symtabIndex dataIndex)
  let (baseSymbol, generator) ← generator.execute (.addSymbol (literal "__flash_base") (objectSymbol 0 0 dataIndex))
  .ok ⟨generator, dataRelocs, dataIndex, baseSymbol, .empty, fun _ => 0, 3, false⟩

/-- `m_next_inode++`, if there is no number yet. -/
def chooseInode (fs : FileSystem) (inodeNumber : UInt32) : UInt32 × Nat :=
  if inodeNumber = 0 then (.ofNat fs.nextInode, fs.nextInode + 1) else (inodeNumber, fs.nextInode)

def fileInfo (inodeNumber : UInt32) (mode : ModeFlags) (size : Nat) : FileInfo where
  dev := 1
  ino := inodeNumber
  mode := mode
  rdev := 0
  size := .ofNat size
  blksize := 0
  blocks := 0
  uid := 0
  gid := 0
  data := 0

/-- The symbol of the root, if it is the root that is added. -/
def exportRoot (fs : FileSystem) (generator : Session) (inodeNumber : UInt32) (inodeOffset : Nat) :
    Except ToolFault Session :=
  if inodeNumber = 2 then do
    let (_, generator) ← generator.execute (.addSymbol (literal "__flash_root") (objectSymbol inodeOffset 40 fs.dataIndex))
    .ok generator
  else .ok generator

def addFile (fs : FileSystem) (stream : MemoryStream) (mode : ModeFlags) (inodeNumber : UInt32) :
    Except ToolFault (Added × FileSystem) := do
  let (inodeNumber, nextInode) := fs.chooseInode inodeNumber
  let (dataOffset, dataStream) := fs.dataStream.writeStream stream
  let (dataSymbol, generator) ← fs.generator.execute
    (.addSymbol (literal "__flash_data_" ++ decimal inodeNumber) (objectSymbol dataOffset stream.size fs.dataIndex))
  let (inodeOffset, dataStream) := dataStream.writeObject (fileInfo inodeNumber mode stream.size)
  let (_, generator) ← generator.execute
    (.addSymbol (literal "__flash_info_" ++ decimal inodeNumber) (objectSymbol inodeOffset 40 fs.dataIndex))
  let generator ← fs.exportRoot generator inodeNumber inodeOffset
  let (_, generator) ← generator.execute
    (.addRel fs.dataRelocs ⟨.ofNat FileInfo.dataOffset + .ofNat inodeOffset,
      relocationInfo dataSymbol⟩)
  let inodeToOffset := Function.update fs.inodeToOffset inodeNumber (.ofNat inodeOffset)
  .ok (⟨inodeNumber, dataOffset, inodeOffset⟩,
    { fs with generator, dataStream, inodeToOffset, nextInode })

/-- `mmap` does not map a file that is empty. -/
def addHostFile (fs : FileSystem) (contents : List UInt8) (mode : ModeFlags) :
    Except ToolFault (Added × FileSystem) := do
  check (contents ≠ [])
  fs.addFile (MemoryStream.empty.writeBytes contents).2 mode 0

/-- The record of an entry. -/
def directoryInfo (fs : FileSystem) (files : Files) (entry : List UInt8 × UInt32) :
    FlashDirectoryInfo :=
  ⟨FlashDirectoryInfo.strlcpy (files.indeterminate entry.1) entry.1, fs.inodeToOffset entry.2⟩

/-- The first loop of `add_directory`, with the offsets of the records. -/
def writeEntries (fs : FileSystem) (files : Files) :
    List (List UInt8 × UInt32) → MemoryStream → List Nat × MemoryStream
  | [], stream => ([], stream)
  | entry :: entries, stream =>
    let (infoOffset, stream) := stream.writeObject (fs.directoryInfo files entry)
    let (infoOffsets, stream) := fs.writeEntries files entries stream
    (infoOffset :: infoOffsets, stream)

/-- The second loop of `add_directory`. -/
def relocateEntries (loadOffset : Nat) : List Nat → FileSystem → Except ToolFault FileSystem
  | [], fs => .ok fs
  | infoOffset :: infoOffsets, fs => do
    let (_, generator) ← fs.generator.execute
      (.addRel fs.dataRelocs ⟨.ofNat (infoOffset + FlashDirectoryInfo.infoRawOffset) + .ofNat loadOffset, relocationInfo fs.baseSymbol⟩)
    relocateEntries loadOffset infoOffsets { fs with generator }

/-- `add_directory`, with the offsets of the records among the contents. -/
def addDirectory (fs : FileSystem) (files : Files) (inodeNumber : UInt32) :
    Except ToolFault (Added × List Nat × FileSystem) := do
  let (infoOffsets, stream) := fs.writeEntries files files.entries .empty
  let (added, fs) ← fs.addFile stream ModeFlags.directory inodeNumber
  let fs ← relocateEntries added.loadOffset infoOffsets fs
  .ok (added, infoOffsets, fs)

def addRootDirectory (fs : FileSystem) (files : Files) :
    Except ToolFault (Added × List Nat × FileSystem) := fs.addDirectory files 2

def finalize (fs : FileSystem) : Except ToolFault FileSystem := do
  check (fs.finalized = false)
  let (_, generator) ← fs.generator.execute (.finalizeRelocations fs.dataRelocs)
  let (_, generator) ← generator.execute (.writeSection fs.dataIndex fs.dataStream)
  .ok { fs with generator, finalized := true }

end FileSystem

/-- What a user can call before `finalize`. -/
inductive FileCall where
  | addFile (stream : MemoryStream) (mode : ModeFlags) (inodeNumber : UInt32)
  | addHostFile (contents : List UInt8) (mode : ModeFlags)
  | addDirectory (files : Files) (inodeNumber : UInt32)
  | addRootDirectory (files : Files)

/-- The number that a call returns, and the offsets of the records that it writes. -/
structure Outcome where
  inode : UInt32
  records : List Nat
  deriving DecidableEq

namespace FileSystem

/-- The records of the entries, and that of the directory itself. -/
def directoryOutcome (added : Added) (infoOffsets : List Nat) : Outcome :=
  ⟨added.inode, infoOffsets.map (added.loadOffset + ·) ++ [added.inodeOffset]⟩

def execute (fs : FileSystem) : FileCall → Except ToolFault (Outcome × FileSystem)
  | .addFile stream mode inodeNumber => do
    let (added, fs) ← fs.addFile stream mode inodeNumber
    .ok (⟨added.inode, [added.inodeOffset]⟩, fs)
  | .addHostFile contents mode => do
    let (added, fs) ← fs.addHostFile contents mode
    .ok (⟨added.inode, [added.inodeOffset]⟩, fs)
  | .addDirectory files inodeNumber => do
    let (added, infoOffsets, fs) ← fs.addDirectory files inodeNumber
    .ok (directoryOutcome added infoOffsets, fs)
  | .addRootDirectory files => do
    let (added, infoOffsets, fs) ← fs.addRootDirectory files
    .ok (directoryOutcome added infoOffsets, fs)

def play (fs : FileSystem) : List FileCall → Except ToolFault (List Outcome × FileSystem)
  | [] => .ok ([], fs)
  | call :: calls => do
    let (outcome, fs) ← fs.execute call
    let (outcomes, fs) ← fs.play calls
    .ok (outcome :: outcomes, fs)

end FileSystem
end PicoOs.Tools
