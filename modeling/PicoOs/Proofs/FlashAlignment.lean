import PicoOs.Tools.FileSystem
import PicoOs.Proofs.Descriptions

/-! Where the records of the files are. Contents and records follow each other without a gap, so
that a record is where the sizes of all contents before it put it. -/

namespace PicoOs.Tools
open Library Elf
open Kernel (literal ModeFlags)

namespace FileSystem
variable {fs after : FileSystem} {written : List UInt8} {stream : MemoryStream} {mode : ModeFlags}
  {inodeNumber : UInt32} {added : Added}
  {files : Files} {infoOffsets : List Nat}

def fileBytes (inodeNumber : UInt32) (mode : ModeFlags) (bytes : List UInt8) : List UInt8 :=
  bytes ++ Record.encode (fileInfo inodeNumber mode bytes.length)

theorem length_fileBytes (inodeNumber : UInt32) (mode : ModeFlags) (bytes : List UInt8) :
    (fileBytes inodeNumber mode bytes).length = bytes.length + 40 := by
  rw [fileBytes, List.length_append, Record.length_encode]
  rfl

/-- A file is added behind everything else. -/
theorem addFile_ok (filled : fs.dataStream = .filled written)
    (done : fs.addFile stream mode inodeNumber = .ok (added, after)) :
    added = ⟨(fs.chooseInode inodeNumber).1, written.length, written.length + stream.size⟩ ∧
      ∃ generator, after = { fs with
        generator
        dataStream := .filled (written ++ fileBytes added.inode mode stream.bytes)
        inodeToOffset := Function.update fs.inodeToOffset added.inode (.ofNat added.inodeOffset)
        nextInode := (fs.chooseInode inodeNumber).2 } := by
  unfold addFile MemoryStream.writeStream MemoryStream.writeObject at done
  dsimp only at done
  rw [filled, MemoryStream.filled_writeBytes, MemoryStream.filled_writeBytes] at done
  obtain ⟨⟨dataSymbol, first⟩, _, done⟩ := bind_ok.mp done
  obtain ⟨⟨_, second⟩, _, done⟩ := bind_ok.mp done
  obtain ⟨third, _, done⟩ := bind_ok.mp done
  obtain ⟨⟨_, last⟩, _, done⟩ := bind_ok.mp done
  obtain ⟨rfl, rfl⟩ := Prod.mk.inj (Except.ok.inj done)
  rw [List.length_append, List.append_assoc]
  exact ⟨rfl, last, rfl⟩

def infoSize : Nat := 256

def entryOffsets (start count : Nat) : List Nat :=
  (List.range count).map fun index => start + index * infoSize

private theorem entryOffsets_succ (start count : Nat) :
    entryOffsets start (count + 1) = start :: entryOffsets (start + infoSize) count := by
  rw [entryOffsets, List.range_succ_eq_map, List.map_cons, List.map_map, Nat.zero_mul,
    Nat.add_zero, entryOffsets]
  refine congrArg _ (List.map_congr_left fun index _ => ?_)
  rw [Function.comp_apply, Nat.succ_mul]
  omega

theorem mem_entryOffsets {start count offset : Nat} :
    offset ∈ entryOffsets start count ↔ ∃ index < count, offset = start + index * infoSize := by
  simp only [entryOffsets, List.mem_map, List.mem_range, eq_comm]

theorem writeEntries_filled (fs : FileSystem) (files : Files) (entries : List (List UInt8 × UInt32))
    (written : List UInt8) :
    fs.writeEntries files entries (.filled written) =
      (entryOffsets written.length entries.length,
        .filled (written ++ Record.encodeAll (entries.map (fs.directoryInfo files)))) := by
  induction entries generalizing written with
  | nil =>
    rw [writeEntries, List.map_nil, Record.encodeAll, List.map_nil, List.flatten_nil,
      List.append_nil]
    rfl
  | cons entry entries ih =>
    rw [writeEntries, MemoryStream.writeObject, MemoryStream.filled_writeBytes]
    dsimp only
    rw [ih, List.length_append, Record.length_encode, List.length_cons, entryOffsets_succ,
      List.append_assoc]
    rfl

theorem relocateEntries_ok {loadOffset : Nat}
    (done : relocateEntries loadOffset infoOffsets fs = .ok after) :
    ∃ generator, after = { fs with generator } := by
  induction infoOffsets generalizing fs with
  | nil => exact ⟨fs.generator, (Except.ok.inj done).symm⟩
  | cons infoOffset infoOffsets ih =>
    obtain ⟨⟨_, first⟩, _, rest⟩ := bind_ok.mp done
    obtain ⟨generator, same⟩ := ih rest
    exact ⟨generator, same⟩

def directoryBytes (fs : FileSystem) (files : Files) : List UInt8 :=
  Record.encodeAll (files.entries.map (fs.directoryInfo files))

theorem length_directoryBytes (fs : FileSystem) (files : Files) :
    (fs.directoryBytes files).length = files.entries.length * infoSize := by
  rw [directoryBytes, Record.length_encodeAll, List.length_map]
  rfl

private theorem addDirectory_ok (filled : fs.dataStream = .filled written)
    (done : fs.addDirectory files inodeNumber = .ok (added, infoOffsets, after)) :
    infoOffsets = entryOffsets 0 files.entries.length ∧
      added = ⟨(fs.chooseInode inodeNumber).1, written.length,
        written.length + (fs.directoryBytes files).length⟩ ∧
      ∃ generator, after = { fs with
        generator
        dataStream := .filled (written ++ fileBytes added.inode ModeFlags.directory (fs.directoryBytes files))
        inodeToOffset := Function.update fs.inodeToOffset added.inode (.ofNat added.inodeOffset)
        nextInode := (fs.chooseInode inodeNumber).2 } := by
  have entries := fs.writeEntries_filled files files.entries []
  unfold addDirectory at done
  have empty : MemoryStream.empty = .filled [] := rfl
  rw [empty, entries] at done
  obtain ⟨⟨_, middle⟩, addedFile, done⟩ := bind_ok.mp done
  obtain ⟨final, relocated, done⟩ := bind_ok.mp done
  obtain ⟨rfl, rest⟩ := Prod.mk.inj (Except.ok.inj done)
  obtain ⟨rfl, rfl⟩ := Prod.mk.inj rest
  obtain ⟨place, generator, rfl⟩ := addFile_ok filled addedFile
  obtain ⟨last, rfl⟩ := relocateEntries_ok relocated
  exact ⟨rfl, place, last, rfl⟩

end FileSystem

def FileCall.dataSize : FileCall → Nat
  | .addFile stream _ _ => stream.size
  | .addHostFile contents _ => contents.length
  | .addDirectory files _ | .addRootDirectory files => files.entries.length * FileSystem.infoSize

def FileCall.entryCount : FileCall → Nat
  | .addFile _ _ _ | .addHostFile _ _ => 0
  | .addDirectory files _ | .addRootDirectory files => files.entries.length

namespace FileSystem
variable {fs after : FileSystem} {written : List UInt8} {call : FileCall} {calls : List FileCall}
  {outcome : Outcome} {outcomes : List Outcome}

theorem execute_ok (filled : fs.dataStream = .filled written)
    (done : fs.execute call = .ok (outcome, after)) :
    (∃ more, after.dataStream = .filled (written ++ more) ∧ more.length = call.dataSize + 40) ∧
      ∀ offset, offset ∈ outcome.records ↔
        offset = written.length + call.dataSize ∨
        ∃ index < call.entryCount, offset = written.length + index * infoSize := by
  have file {stream : MemoryStream} {mode : ModeFlags} {inodeNumber : UInt32} {added : Added}
    {last : FileSystem}
      (addedFile : fs.addFile stream mode inodeNumber = .ok (added, last)) :
      (∃ more, last.dataStream = .filled (written ++ more) ∧ more.length = stream.size + 40) ∧
        added.inodeOffset = written.length + stream.size := by
    obtain ⟨place, generator, rfl⟩ := addFile_ok filled addedFile
    exact ⟨⟨_, rfl, length_fileBytes _ _ _⟩, congrArg Added.inodeOffset place⟩
  have directory {files : Files} {inodeNumber : UInt32} {added : Added} {infoOffsets : List Nat}
    {last : FileSystem}
      (addedDirectory : fs.addDirectory files inodeNumber = .ok (added, infoOffsets, last)) :
      (∃ more, last.dataStream = .filled (written ++ more) ∧
        more.length = files.entries.length * infoSize + 40) ∧
        ∀ offset, offset ∈ (directoryOutcome added infoOffsets).records ↔
          offset = written.length + files.entries.length * infoSize ∨
            ∃ index < files.entries.length, offset = written.length + index * infoSize := by
    obtain ⟨rfl, place, generator, rfl⟩ := addDirectory_ok filled addedDirectory
    have size := fs.length_directoryBytes files
    refine ⟨⟨_, rfl, by rw [length_fileBytes, size]⟩, fun offset => ?_⟩
    simp only [directoryOutcome, place, size, List.mem_append, List.mem_map, mem_entryOffsets,
      List.mem_singleton, Nat.zero_add]
    constructor
    · rintro (⟨_, ⟨index, inside, rfl⟩, rfl⟩ | last)
      · exact .inr ⟨index, inside, rfl⟩
      · exact .inl last
    · rintro (last | ⟨index, inside, rfl⟩)
      · exact .inr last
      · exact .inl ⟨_, ⟨index, inside, rfl⟩, rfl⟩
  have single (position offset : Nat) : offset ∈ [position] ↔
    offset = position ∨ ∃ index < 0, offset = written.length + index * infoSize := by
    simp
  cases call with
  | addFile stream mode inodeNumber =>
    obtain ⟨⟨added, last⟩, addedFile, done⟩ := bind_ok.mp done
    obtain ⟨rfl, rfl⟩ := Prod.mk.inj (Except.ok.inj done)
    obtain ⟨more, place⟩ := file addedFile
    exact ⟨more, place ▸ single added.inodeOffset⟩
  | addHostFile contents mode =>
    obtain ⟨⟨added, last⟩, addedFile, done⟩ := bind_ok.mp done
    obtain ⟨rfl, rfl⟩ := Prod.mk.inj (Except.ok.inj done)
    obtain ⟨_, _, addedFile⟩ := bind_ok.mp addedFile
    have stream : (MemoryStream.empty.writeBytes contents).2 = .filled contents := by
      have empty : MemoryStream.empty = .filled [] := rfl
      rw [empty, MemoryStream.filled_writeBytes, List.nil_append]
    rw [stream] at addedFile
    obtain ⟨more, place⟩ := file addedFile
    exact ⟨more, place ▸ single added.inodeOffset⟩
  | addDirectory files inodeNumber | addRootDirectory files =>
    obtain ⟨⟨added, infoOffsets, last⟩, addedDirectory, done⟩ := bind_ok.mp done
    obtain ⟨rfl, rfl⟩ := Prod.mk.inj (Except.ok.inj done)
    exact directory addedDirectory

/-- The step lemma: as long as all contents have been multiples of a word, so is what has been
written. -/
theorem execute_aligned (filled : fs.dataStream = .filled written) (aligned : 4 ∣ written.length)
    (done : fs.execute call = .ok (outcome, after)) :
    (∀ offset ∈ outcome.records, 4 ∣ offset) ↔ 4 ∣ call.dataSize := by
  obtain ⟨_, records⟩ := execute_ok filled done
  constructor
  · intro all
    exact (Nat.dvd_add_right aligned).mp (all _ ((records _).mpr (.inl rfl)))
  · intro size offset member
    obtain rfl | ⟨index, _, rfl⟩ := (records offset).mp member
    · exact Nat.dvd_add aligned size
    · exact Nat.dvd_add aligned (Nat.dvd_mul_left_of_dvd (by decide) index)

private theorem play_aligned (filled : fs.dataStream = .filled written)
    (aligned : 4 ∣ written.length)
    (played : fs.play calls = .ok (outcomes, after)) :
    (∀ outcome ∈ outcomes, ∀ offset ∈ outcome.records, 4 ∣ offset) ↔
    ∀ call ∈ calls, 4 ∣ call.dataSize := by
  induction calls generalizing fs written outcomes with
  | nil =>
    obtain ⟨rfl, rfl⟩ := Prod.mk.inj (Except.ok.inj played)
    exact ⟨fun _ => nofun, fun _ => nofun⟩
  | cons call calls ih =>
    obtain ⟨⟨outcome, middle⟩, done, rest⟩ := bind_ok.mp played
    obtain ⟨⟨others, last⟩, further, same⟩ := bind_ok.mp rest
    obtain ⟨rfl, rfl⟩ := Prod.mk.inj (Except.ok.inj same)
    rw [List.forall_mem_cons, List.forall_mem_cons, execute_aligned filled aligned done]
    refine and_congr_right fun size => ?_
    obtain ⟨⟨more, behind, length⟩, _⟩ := execute_ok filled done
    refine ih behind ?_ further
    rw [List.length_append, length]
    exact Nat.dvd_add aligned (Nat.dvd_add size (by decide))

private theorem construct_empty {generator : Session} (constructed : construct generator = .ok fs) :
    fs.dataStream = .filled [] := by
  obtain ⟨⟨dataIndex, first⟩, _, constructed⟩ := bind_ok.mp constructed
  obtain ⟨symtabIndex, _, constructed⟩ := bind_ok.mp constructed
  obtain ⟨⟨_, second⟩, _, constructed⟩ := bind_ok.mp constructed
  obtain ⟨⟨baseSymbol, third⟩, _, constructed⟩ := bind_ok.mp constructed
  rw [← Except.ok.inj constructed]
  rfl

/-- All records are at multiples of a word if and only if the sizes of all contents are. -/
theorem records_aligned_iff {generator : Session} (constructed : construct generator = .ok fs)
    (played : fs.play calls = .ok (outcomes, after)) :
    (∀ outcome ∈ outcomes, ∀ offset ∈ outcome.records, 4 ∣ offset) ↔
    ∀ call ∈ calls, 4 ∣ call.dataSize :=
  play_aligned (construct_empty constructed) (Nat.dvd_zero 4) played

def oneFile (contents : List UInt8) : List FileCall :=
  [.addHostFile contents 0x753, .addRootDirectory ⟨[(literal "file", 3)], List.pairwise_singleton _ _, fun _ _ => 0⟩]

def outcomes? (calls : List FileCall) : Option (List Outcome) :=
  Session.construct.toOption.bind fun generator => (construct generator).toOption.bind fun fs =>
    (fs.play calls).toOption.map Prod.fst

theorem outcomes?_some (played : outcomes? calls = some outcomes) :
    ∃ generator fs after, Session.construct = .ok generator ∧
    construct generator = .ok fs ∧ fs.play calls = .ok (outcomes, after) := by
  obtain ⟨generator, made, played⟩ := Option.bind_eq_some_iff.mp played
  obtain ⟨fs, constructed, played⟩ := Option.bind_eq_some_iff.mp played
  obtain ⟨⟨_, after⟩, done, rfl⟩ := Option.map_eq_some_iff.mp played
  exact ⟨generator, fs, after, toOption_some.mp made, toOption_some.mp constructed,
    toOption_some.mp done⟩

/-- The records for a file of four bytes. -/
theorem records_aligned_iff_word :
    ∃ generator fs outcomes after, Session.construct = .ok generator ∧
    construct generator = .ok fs ∧
    fs.play (oneFile [1, 2, 3, 4]) = .ok (outcomes, after) ∧ outcomes = [⟨3, [4]⟩, ⟨2, [44, 300]⟩] ∧
    ((∀ outcome ∈ outcomes, ∀ offset ∈ outcome.records, 4 ∣ offset) ↔ ∀ call ∈ oneFile [1, 2, 3, 4],
      4 ∣ call.dataSize) := by
  have computed : outcomes? (oneFile [1, 2, 3, 4]) = some [⟨3, [4]⟩, ⟨2, [44, 300]⟩] := by
    decide +kernel
  obtain ⟨generator, fs, after, made, constructed, played⟩ := outcomes?_some computed
  exact ⟨generator, fs, _, after, made, constructed, played, rfl,
    records_aligned_iff constructed played⟩

/-- A file of one byte puts all records at odd offsets. -/
theorem records_misaligned : ∃ generator fs outcomes after, Session.construct = .ok generator ∧
    construct generator = .ok fs ∧
    fs.play (oneFile [1]) = .ok (outcomes, after) ∧ outcomes = [⟨3, [1]⟩, ⟨2, [41, 297]⟩] ∧
    ¬∀ outcome ∈ outcomes, ∀ offset ∈ outcome.records, 4 ∣ offset := by
  have computed : outcomes? (oneFile [1]) = some [⟨3, [1]⟩, ⟨2, [41, 297]⟩] := by decide +kernel
  obtain ⟨generator, fs, after, made, constructed, played⟩ := outcomes?_some computed
  refine ⟨generator, fs, _, after, made, constructed, played, rfl, fun all => ?_⟩
  have odd := all _ List.mem_cons_self 1 List.mem_cons_self
  exact absurd odd (by decide)

end FileSystem
end PicoOs.Tools
