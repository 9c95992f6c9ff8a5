import PicoOs.Kernel.PageAllocator
import PicoOs.Library.CStrings
import PicoOs.Library.Elf
import PicoOs.Std.Vector

/-! The loader. An executable lies in flash, which is only read; its writable segment is
copied to a block of pages that the thread owns from then on. -/

namespace PicoOs.Kernel
open Library

/-- `undefined` stands for the arguments for which `round_to_power_of_two` has no value. -/
inductive LoaderFault where
  | verify
  | assert
  | hardFault
  | undefined
  | page (fault : PageFault)
  deriving DecidableEq

def verify (condition : Bool) : Except LoaderFault Unit := if condition then .ok () else .error .verify

/-- `memory` is what the loader finds at the addresses it reads from. -/
structure ElfWrapper where
  base : Nat
  memory : Memory

/-- The names that the loader compares the sections with. -/
inductive SectionKind where
  | stack
  | data
  | bss
  | text
  deriving DecidableEq

def SectionKind.name : SectionKind → List UInt8
  | .stack => [0x2e, 0x73, 0x74, 0x61, 0x63, 0x6b]
  | .data => [0x2e, 0x64, 0x61, 0x74, 0x61]
  | .bss => [0x2e, 0x62, 0x73, 0x73]
  | .text => [0x2e, 0x74, 0x65, 0x78, 0x74]

structure LoadedExecutable where
  entry : Nat
  readonlyBase : Nat
  readonlySize : Nat
  writableBase : Nat
  writableSize : Nat
  dataBase : Nat
  textBase : Nat
  bssBase : Nat
  stackBase : Nat
  stackSize : Nat

namespace ElfWrapper
variable (elf : ElfWrapper)

def bytes (offset count : Nat) : List UInt8 :=
  (List.range count).map fun index => elf.memory (wrap (elf.base + offset + index))

def record (α : Type) [Record α] (offset : Nat) : α :=
  Record.decode (elf.bytes offset (Record.size α))

/-- Words are only read at aligned addresses. -/
def access (offset : Nat) : Except LoaderFault Unit :=
  if wrap (elf.base + offset) % 4 = 0 then .ok () else .error .hardFault

def header : Elf.Ehdr := elf.record Elf.Ehdr 0

def segments (index : Nat) : Elf.Phdr :=
  elf.record Elf.Phdr (elf.header.phoff.toNat + index * Record.size Elf.Phdr)

def sections (index : Nat) : Elf.Shdr :=
  elf.record Elf.Shdr (elf.header.shoff.toNat + index * Record.size Elf.Shdr)

/-- Relative to the base. -/
def sectionNameBase : Nat := (elf.sections elf.header.shstrndx.toNat).offset.toNat

def hasName (shdr : Elf.Shdr) (name : List UInt8) : Bool :=
  elf.bytes (elf.sectionNameBase + shdr.name.toNat) (name.length + 1) == name ++ [0]

def kindOf (shdr : Elf.Shdr) : Option SectionKind :=
  [.stack, .data, .bss, .text].find? fun kind => elf.hasName shdr kind.name

end ElfWrapper

/-- `PT_ARM_EXIDX`, `PT_LOAD`, `PF_X`, `PF_W` and `PF_R` -/
def ptArmExidx : UInt32 := 0x70000001
def ptLoad : UInt32 := 1
def pfX : UInt32 := 1
def pfW : UInt32 := 2
def pfR : UInt32 := 4

/-- `__builtin_ctzl` -/
def powerOfTwo (value : Nat) : Nat := ((List.range 32).find? value.testBit).getD 32

/-- The checks before anything is allocated, with the two segments that are loaded. -/
def checkSegments (elf : ElfWrapper) : Except LoaderFault (Elf.Phdr × Elf.Phdr) := do
  elf.access 0
  verify (elf.header.phnum = 3)
  elf.access elf.header.phoff.toNat
  verify ((elf.segments 0).type = ptArmExidx)
  let readonlySegment := elf.segments 1
  verify (readonlySegment.type = ptLoad)
  verify (readonlySegment.flags = pfR ||| pfX)
  let writableSegment := elf.segments 2
  verify (writableSegment.type = ptLoad)
  verify (writableSegment.flags = pfR ||| pfW)
  verify (readonlySegment.memsz = readonlySegment.filesz)
  .ok (readonlySegment, writableSegment)

/-- The size of the block, the block and what the allocator has left. -/
def allocateWritable (writableSegment : Elf.Phdr) (allocator : PageAllocator) :
    Except LoaderFault (PageRange × PageAllocator) :=
  match Std.roundToPowerOfTwo writableSegment.memsz.toNat with
  | .error _ => .error .undefined
  | .ok writableSize =>
    match allocator.allocateLocked (powerOfTwo writableSize) with
    | .error fault => .error (.page fault)
    | .ok (none, _) => .error .verify
    | .ok (some range, allocator) =>
        if range.size = writableSize then .ok (range, allocator) else .error .verify

/-- The body of the loop over the sections. -/
def loadSection (elf : ElfWrapper) (readonlySegment writableSegment : Elf.Phdr)
    (executable : LoadedExecutable)
    (shdr : Elf.Shdr) : Except LoaderFault LoadedExecutable :=
  let writable := wrap (executable.writableBase + minus shdr.addr.toNat writableSegment.vaddr.toNat)
  match elf.kindOf shdr with
  | some .stack =>
    if shdr.size = 0x1100 then
      .ok { executable with stackBase := writable, stackSize := shdr.size.toNat }
    else .error .assert
  | some .data => .ok { executable with dataBase := writable }
  | some .bss => .ok { executable with bssBase := writable }
  | some .text =>
    .ok { executable with textBase := wrap (executable.readonlyBase + minus shdr.addr.toNat readonlySegment.vaddr.toNat) }
  | none => .ok executable

/-- The loop from a section on, with the number of sections that are left. -/
def loadSections (elf : ElfWrapper) (readonlySegment writableSegment : Elf.Phdr) :
    Nat → Nat → LoadedExecutable → Except LoaderFault LoadedExecutable
  | 0, _, executable => .ok executable
  | remaining + 1, index, executable => do
    elf.access elf.header.shoff.toNat
    let executable ← loadSection elf readonlySegment writableSegment executable (elf.sections index)
    loadSections elf readonlySegment writableSegment remaining (index + 1) executable

/-- What follows the copy of the segment. The size of the stack is read only if there is one. -/
def locate (elf : ElfWrapper) (readonlySegment writableSegment : Elf.Phdr) (range : PageRange) :
    Except LoaderFault LoadedExecutable := do
  verify (elf.header.entry ≥ readonlySegment.vaddr)
  verify (elf.header.entry - readonlySegment.vaddr < readonlySegment.memsz)
  let readonlyBase := wrap (elf.base + readonlySegment.offset.toNat)
  let executable ← loadSections elf readonlySegment writableSegment (elf.header.shnum.toNat - 1) 1
    { entry := wrap (readonlyBase + (elf.header.entry - readonlySegment.vaddr).toNat)
      readonlyBase, readonlySize := readonlySegment.memsz.toNat
      writableBase := range.base, writableSize := range.size
      dataBase := 0, textBase := 0, bssBase := 0, stackBase := 0, stackSize := 0 }
  verify (executable.textBase ≠ 0)
  verify (executable.dataBase ≠ 0)
  verify (executable.stackBase ≠ 0)
  verify (executable.bssBase ≠ 0)
  .ok executable

/-- What the loader does up to the point where it returns or stops: the block it comes to own
and the areas it writes to. -/
structure Loading where
  owned : Option PageRange
  writes : List Area
  outcome : Except LoaderFault (LoadedExecutable × PageAllocator)

def loadExecutableIntoMemory (elf : ElfWrapper) (allocator : PageAllocator) : Loading :=
  match checkSegments elf with
  | .error fault => ⟨none, [], .error fault⟩
  | .ok (readonlySegment, writableSegment) =>
    match allocateWritable writableSegment allocator with
    | .error fault => ⟨none, [], .error fault⟩
    | .ok (range, allocator) =>
      let filesz := writableSegment.filesz.toNat
      let memsz := writableSegment.memsz.toNat
      let copied := allocator.memory.writeBytes range.base
        (elf.bytes writableSegment.offset.toNat filesz)
      if memsz ≥ filesz then
        let filled := copied.fill (range.base + filesz) 0 (memsz - filesz)
        ⟨some range, [⟨range.base, filesz⟩, ⟨range.base + filesz, memsz - filesz⟩],
          (locate elf readonlySegment writableSegment range).map fun executable =>
            (executable, { allocator with memory := filled })⟩
      else ⟨some range, [⟨range.base, filesz⟩], .error .verify⟩

end PicoOs.Kernel
