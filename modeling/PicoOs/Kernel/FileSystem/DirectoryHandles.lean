import PicoOs.Kernel.FileSystem.FileHandles

/-! `MemoryDirectoryHandle` and `FlashDirectoryHandle`, which do the same, over the trees of
`m_entries`. The directories are the hash maps of one heap, and a file has its number. -/

namespace PicoOs.Kernel
open Library PicoOs.Std

inductive ListingFault where
  | tree (fault : SetFault)
  | crash (fault : Crash)
  deriving DecidableEq

structure UserlandDirectoryInfo where
  ino : UInt32
  name : ImmutableString
  deriving DecidableEq

/-- A directory handle with its iterator, while files are created. What has been read through it
is `received`, where an empty result is `none`. -/
structure Listing where
  entries : HashMaps ImmutableString FileRef
  iterator : Option NodeRef
  received : List (Option UserlandDirectoryInfo)

inductive ListingEvent where
  | set (directory : SetId) (name : ImmutableString) (file : FileRef)
  | read (count : Nat)

namespace Listing

def create (entries : HashMaps ImmutableString FileRef) (directory : SetId) :
    Except ListingFault Listing := do
  let iterator ← ((entries.sets directory).inorder entries.heap).mapError .tree
  .ok ⟨entries, iterator, []⟩

def read (ino : FileRef → UInt32) (listing : Listing) (count : Nat) :
    Except ListingFault (Option UserlandDirectoryInfo × Option NodeRef) := do
  (require .assertion (count = directoryInfoSize)).mapError .crash
  match listing.iterator with
  | none => .ok (none, none)
  | some current => do
    let next ← (SortedSet.advance listing.entries.heap (some current)).mapError .tree
    let contents ← (listing.entries.heap.load current).mapError .tree
    let file ← (must contents.value.value.value).mapError .crash
    let name ← (strcpyTo contents.value.value.key directoryNameSize).mapError .crash
    .ok (some ⟨ino file, name⟩, next)

def execute (ino : FileRef → UInt32) (listing : Listing) :
    ListingEvent → Except ListingFault Listing
  | .set directory name file => do
    let entries ← (listing.entries.execute (.set directory name file)).mapError .tree
    .ok { listing with entries }
  | .read count => do
    let (info, iterator) ← listing.read ino count
    .ok { listing with iterator, received := listing.received ++ [info] }

/-- The names in the directory have room in a record, and the buffers are as large as one. -/
def permitted (directory : SetId) : ListingEvent → Prop
  | .set other name _ => other = directory → name.length < directoryNameSize
  | .read count => count = directoryInfoSize

instance (directory : SetId) (event : ListingEvent) : Decidable (permitted directory event) :=
  match event with
  | .set other name _ =>
      inferInstanceAs (Decidable (other = directory → name.length < directoryNameSize))
  | .read count => inferInstanceAs (Decidable (count = directoryInfoSize))

def machine (directory : SetId) (ino : FileRef → UInt32) :
    Machine Listing ListingEvent ListingFault where
  permitted _ event := permitted directory event
  execute := execute ino

instance (directory : SetId) (ino : FileRef → UInt32) (listing : Listing) (event : ListingEvent) :
    Decidable ((machine directory ino).permitted listing event) :=
  inferInstanceAs (Decidable (permitted directory event))

end Listing

/-- What happens to the directories before. -/
def Fills (directory : SetId) : MapEvent ImmutableString FileRef → Prop
  | .set other name _ => other = directory → name.length < directoryNameSize
  | .remove _ _ | .clear _ => False

instance (directory : SetId) (event : MapEvent ImmutableString FileRef) :
    Decidable (Fills directory event) :=
  match event with
  | .set other name _ =>
      inferInstanceAs (Decidable (other = directory → name.length < directoryNameSize))
  | .remove _ _ | .clear _ => .isFalse nofun

def filling (directory : SetId) :
    Machine (HashMaps ImmutableString FileRef) (MapEvent ImmutableString FileRef) SetFault :=
  (HashMaps.machine ImmutableString FileRef).restrict fun _ event => Fills directory event

instance (directory : SetId) (state : HashMaps ImmutableString FileRef)
    (event : MapEvent ImmutableString FileRef) :
    Decidable ((filling directory).permitted state event) :=
  inferInstanceAs (Decidable (True ∧ Fills directory event))

end PicoOs.Kernel
