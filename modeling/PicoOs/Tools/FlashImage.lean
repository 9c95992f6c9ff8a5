import PicoOs.Kernel.FileSystem.FlashFileSystem
import PicoOs.Library.Linking
import PicoOs.Tools.FileSystem

/-! The way of a tree of files from `ElfEmbed` through the linker into the memory of the kernel,
and what the kernel should make of it there. -/

namespace PicoOs.Tools
open Library Elf
open PicoOs.Std (ImmutableString HashMap)
open Kernel (literal ModeFlags FileRef VirtualFile flashFileSystem dot dotdot)

/-- `main` of `ElfEmbed`, with the calls that add the files. -/
def embed (indeterminate : Fin 16 → UInt8) (calls : List FileCall) :
    Except ToolFault (List Outcome × List UInt8) := do
  let generator ← Session.construct
  let fs ← FileSystem.construct generator
  let (outcomes, fs) ← fs.play calls
  let fs ← fs.finalize
  let object ← fs.generator.generator.finalize indeterminate
  .ok (outcomes, object)

/-- The address of `__flash_root` and the bytes of `.embed`, when the linker places the section
at the base. -/
def flashImage (object : List UInt8) (base : Nat) : Option (Nat × List UInt8) := do
  let target ← sectionNamed object (literal ".embed")
  let symbols ← symbolsOf object
  let root ← symbolNamed object symbols (literal "__flash_root")
  some (symbolAddress target base (symbolAt object symbols root), linkedSection object target base)

/-- The image is in the memory, and does not reach beyond its end. -/
structure Loaded (memory : Memory) (base : Nat) (image : List UInt8) : Prop where
  inside : base + image.length ≤ 2 ^ 32
  window : memory.window base image.length = image

/-- A file as it is meant. The files of a directory are given by their numbers. -/
inductive Node where
  | file (mode : ModeFlags) (bytes : List UInt8)
  | directory (entries : List (List UInt8 × UInt32))
  deriving DecidableEq

namespace Node

def mode : Node → ModeFlags
  | file mode _ => mode
  | directory _ => ModeFlags.directory

def children : Node → List UInt32
  | file _ _ => []
  | directory entries => entries.map Prod.snd

/-- Files are regular, and the names of entries can be stored. -/
def Proper : Node → Prop
  | file mode _ => mode &&& ModeFlags.format = ModeFlags.regular
  | directory entries =>
      ∀ entry ∈ entries, entry.1 ≠ [] ∧ 0 ∉ entry.1 ∧ entry.1.length ≤ 251 ∧ entry.1 ≠ dot ∧
        entry.1 ≠ dotdot

instance : DecidablePred Proper
  | file mode _ => inferInstanceAs (Decidable (mode &&& ModeFlags.format = ModeFlags.regular))
  | directory entries => inferInstanceAs (Decidable (∀ entry ∈ entries,
    entry.1 ≠ [] ∧ 0 ∉ entry.1 ∧ entry.1.length ≤ 251 ∧ entry.1 ≠ dot ∧ entry.1 ≠ dotdot))

end Node

def FileCall.node : FileCall → Node
  | .addFile stream mode _ => .file mode stream.bytes
  | .addHostFile contents mode => .file mode contents
  | .addDirectory files _ | .addRootDirectory files => .directory files.entries

/-- What the calls have added, under the numbers that they have returned. -/
def added (outcomes : List Outcome) (calls : List FileCall) : List (UInt32 × Node) :=
  List.zipWith (fun outcome call => (outcome.inode, call.node)) outcomes calls

/-- Every file has a number of its own, and the entries of a directory are there before it is. -/
def BottomUp (known : List UInt32) : List (UInt32 × Node) → Prop
  | [] => True
  | file :: files =>
      file.1 ∉ known ∧ file.2.Proper ∧ (∀ child ∈ file.2.children, child ∈ known) ∧
        BottomUp (known ++ [file.1]) files

instance instDecidableBottomUp :
    (known : List UInt32) → (files : List (UInt32 × Node)) → Decidable (BottomUp known files)
  | _, [] => inferInstanceAs (Decidable True)
  | known, file :: files =>
    have := instDecidableBottomUp (known ++ [file.1]) files
    have := List.decidableBAll (· ∈ known) file.2.children
    inferInstanceAs (Decidable (file.1 ∉ known ∧ file.2.Proper ∧
      (∀ child ∈ file.2.children, child ∈ known) ∧ BottomUp (known ++ [file.1]) files))

/-- A tree of files: there is a root, and every other file is in a directory. -/
structure Tree (files : List (UInt32 × Node)) : Prop where
  bottomUp : BottomUp [] files
  root : ∃ entries, (2, .directory entries) ∈ files
  joined : ∀ file ∈ files, file.1 = 2 ∨ ∃ directory ∈ files, file.1 ∈ directory.2.children

def flashFileOf (inode : UInt32) (mode : ModeFlags) (bytes : List UInt8) : VirtualFile :=
  { VirtualFile.construct (.flashFile bytes) with filesystem := .flash, ino := inode, mode, size := bytes.length }

def flashDirectoryOf (inode : UInt32) (entries : HashMap ImmutableString FileRef) : VirtualFile :=
  { VirtualFile.construct (.directory entries) with filesystem := .flash, ino := inode, mode := ModeFlags.directory, size := 0xdead }

/-- An object of the kernel shows the file with a number. Its bytes, its mode and its size are
those of the file, and the objects in a directory, which are newer than the directory, show the
files in it. -/
inductive Shows (files : List (UInt32 × Node)) (fs : Kernel.FileSystem) :
    FileRef → FileRef → UInt32 → Prop where
  | file {ref parent : FileRef} {inode : UInt32} {mode : ModeFlags} {bytes : List UInt8}
      (there : (inode, .file mode bytes) ∈ files)
      (exists_ : ref < fs.next) (same : fs.files ref = flashFileOf inode mode bytes) :
        Shows files fs ref parent inode
  | directory {ref parent : FileRef} {inode : UInt32} {entries : List (List UInt8 × UInt32)}
      {map : HashMap ImmutableString FileRef}
      (targets : ImmutableString → FileRef) (there : (inode, .directory entries) ∈ files)
        (exists_ : ref < fs.next)
      (same : fs.files ref = flashDirectoryOf inode map)
      (self : map.getOpt dot = some ref) (up : map.getOpt dotdot = some parent)
      (names : ∀ name, (map.getOpt name).isSome → name = dot ∨ name = dotdot ∨
        name ∈ entries.map Prod.fst)
      (found : ∀ entry ∈ entries, map.getOpt entry.1 = some (targets entry.1))
      (newer : ∀ entry ∈ entries, ref < targets entry.1)
      (shown : ∀ entry ∈ entries, Shows files fs (targets entry.1) ref entry.2) :
        Shows files fs ref parent inode

/-- The kernel finds the tree, however deep its stack is, if it is deep enough. -/
def Reconstructs (memory : Memory) (flashRoot : Nat) (files : List (UInt32 × Node)) : Prop :=
  ∃ enough, ∀ depth ≥ enough, ∀ fs, ∃ after, flashFileSystem memory flashRoot depth fs = .ok after ∧
    Shows files after fs.next fs.next 2 ∧ ∀ address ∈ Kernel.FlashDirectory.records memory depth
      flashRoot, 4 ∣ address

end PicoOs.Tools
