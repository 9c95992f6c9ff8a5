import PicoOs.Proofs.FileBoot
import PicoOs.Proofs.FlashTrees

/-! What the constructor of `FlashDirectory` makes of a tree of files whose records are in the
memory. The loop adds one object for each entry, and leaves the objects alone that are there. -/

namespace PicoOs.Tools
open Library PicoOs.Std
open Kernel (literal ModeFlags FileRef VirtualFile cstring dot dotdot)
open Kernel.FlashDirectory (addFile addEntries construct infoSize infoOffset)

def Node.size : Node → Nat
  | file _ bytes => bytes.length
  | directory entries => entries.length * infoSize

/-- The record of a file is in the memory, and its contents are in front of it. -/
structure Stored (memory : Memory) (place : UInt32 → Nat) (file : UInt32 × Node) : Prop where
  behind : file.2.size ≤ place file.1
  below : place file.1 + 40 ≤ 2 ^ 32
  info : Kernel.FileInfo.load memory (place file.1) =
    ⟨file.1.toNat, file.2.mode.toNat, file.2.size, place file.1 - file.2.size⟩
  bytes : ∀ mode bytes, file.2 = .file mode bytes →
    memory.window (place file.1 - bytes.length) bytes.length = bytes
  entries : ∀ entries, file.2 = .directory entries → ∀ index entry, entries[index]? = some entry →
    let address := place file.1 - file.2.size + index * infoSize
    memory.load (address + infoOffset) = place entry.2 ∧
      memory.window address (entry.1.length + 1) = terminated entry.1

section
variable {memory : Memory} {address limit : Nat} {name : List UInt8}

private theorem window_succ (memory : Memory) (address count : Nat) :
    memory.window address (count + 1) = memory address :: memory.window (address + 1) count := by
  rw [Nat.add_comm, Memory.window_append]
  rfl

private theorem cstring_terminated (free : 0 ∉ name)
    (window : memory.window address (name.length + 1) = terminated name)
    (inside : address + name.length < 2 ^ 32) (more : name.length < limit) :
    cstring memory limit address = .ok name := by
  induction name generalizing address limit with
  | nil =>
    obtain ⟨limit, rfl⟩ := Nat.exists_eq_add_of_lt more
    have first : memory address = 0 := (List.cons.inj window).1
    rw [cstring, if_pos first]
  | cons byte name ih =>
    obtain ⟨limit, rfl⟩ := Nat.exists_eq_add_of_lt more
    rw [List.length_cons] at inside window
    rw [window_succ, terminated, List.cons_append] at window
    obtain ⟨first, rest⟩ := List.cons.inj window
    obtain ⟨nonzero, later⟩ := not_or.mp fun member => free (List.mem_cons.mpr member)
    have further : cstring memory (name.length + 1 + limit) (address + 1) = .ok name :=
      ih later rest (by omega) (by omega)
    rw [List.length_cons, cstring, if_neg (first ▸ fun same => nonzero same.symm),
      wrap_of_lt (by omega), further, first]
    rfl

end

section
variable {files : List (UInt32 × Node)} {fs after : Kernel.FileSystem}
  {ref parent directory : FileRef} {inode : UInt32}

/-- An object goes on to show its file as long as it is left alone, and so are all newer ones. -/
theorem Shows.congr (shows_ : Shows files fs ref parent inode) (grows : fs.next ≤ after.next)
    (kept : ∀ other, ref ≤ other → other < fs.next → after.files other = fs.files other) :
    Shows files after ref parent inode := by
  induction shows_ with
  | file there exists_ same =>
      exact .file there (exists_.trans_le grows) ((kept _ (Nat.le_refl _) exists_).trans same)
  | directory targets there exists_ same self up names found newer shown ih =>
    refine .directory targets there (exists_.trans_le grows)
      ((kept _ (Nat.le_refl _) exists_).trans same) self up names found newer ?_
    exact fun entry member => ih entry member fun other above below =>
      kept other ((newer entry member).le.trans above) below

/-- A directory that is entered into another one. -/
theorem Shows.enter (shows_ : Shows files fs ref ref inode)
    (proper : ∀ entries, (inode, .directory entries) ∈ files → ∀ entry ∈ entries, entry.1 ≠ dotdot)
    (parent : FileRef) :
    Shows files (fs.setEntry ref dotdot parent) ref parent inode := by
  cases shows_ with
  | file there exists_ same =>
    have still : (fs.setEntry ref dotdot parent).files ref = fs.files ref := by
      rw [Kernel.FileSystem.setEntry, Kernel.FileSystem.modify_same, same]
      rfl
    exact .file there exists_ (still.trans same)
  | @directory _ _ _ entries map targets there exists_ same self up names found newer shown =>
    have changed : (fs.setEntry ref dotdot parent).files ref =
      flashDirectoryOf inode (map.set dotdot parent) := by
      rw [Kernel.FileSystem.setEntry, Kernel.FileSystem.modify_same, same]
      rfl
    have apart : dot ≠ dotdot := by decide
    refine .directory targets there exists_ changed ?_ (HashMap.getOpt_set_same ..)
      (fun name some => ?_) (fun entry member => ?_) newer
      fun entry member => (shown entry member).congr (Nat.le_refl _) fun other above _ => ?_
    · rw [HashMap.getOpt_set_other _ _ apart, self]
    · by_cases up : name = dotdot
      · exact .inr (.inl up)
      · rw [HashMap.getOpt_set_other _ _ up] at some
        exact names name some
    · rw [HashMap.getOpt_set_other _ _ (proper entries there entry member), found entry member]
    · exact Kernel.FileSystem.modify_other fs _ (Nat.ne_of_gt ((newer entry member).trans_le above))

structure Fills (files : List (UInt32 × Node)) (fs : Kernel.FileSystem) (directory : FileRef)
    (inode : UInt32)
    (map : HashMap ImmutableString FileRef) (targets : ImmutableString → FileRef)
    (done : List (List UInt8 × UInt32)) : Prop where
  exists_ : directory < fs.next
  same : fs.files directory = flashDirectoryOf inode map
  self : map.getOpt dot = some directory
  up : map.getOpt dotdot = some directory
  names : ∀ name, (map.getOpt name).isSome → name = dot ∨ name = dotdot ∨ name ∈ done.map Prod.fst
  found : ∀ entry ∈ done, map.getOpt entry.1 = some (targets entry.1)
  newer : ∀ entry ∈ done, directory < targets entry.1
  shown : ∀ entry ∈ done, Shows files fs (targets entry.1) directory entry.2

structure Extends (before after : Kernel.FileSystem) : Prop where
  next : before.next < after.next
  files : ∀ other < before.next, after.files other = before.files other

variable {map : HashMap ImmutableString FileRef} {targets : ImmutableString → FileRef}
  {done : List (List UInt8 × UInt32)}
  {entry : List UInt8 × UInt32}

private theorem Fills.add (fills : Fills files fs directory inode map targets done)
    (extends_ : Extends fs after)
    (shows_ : Shows files after fs.next directory entry.2) (new : entry.1 ∉ done.map Prod.fst)
    (proper : entry.1 ≠ dot ∧ entry.1 ≠ dotdot) :
    Fills files (after.setEntry directory entry.1 fs.next) directory inode (map.set entry.1 fs.next)
      (Function.update targets entry.1 fs.next) (done ++ [entry]) := by
  have old : after.files directory = flashDirectoryOf inode map :=
    (extends_.files directory fills.exists_).trans fills.same
  have other : ∀ each ∈ done, each.1 ≠ entry.1 :=
    fun each member same => new (same ▸ List.mem_map_of_mem member)
  have kept (ref : FileRef) (behind : directory < ref) :
    (after.setEntry directory entry.1 fs.next).files ref = after.files ref :=
    Kernel.FileSystem.modify_other after _ (Nat.ne_of_gt behind)
  refine ⟨fills.exists_.trans extends_.next, ?_, ?_, ?_, fun name some => ?_, ?_, ?_, ?_⟩
  · rw [Kernel.FileSystem.setEntry, Kernel.FileSystem.modify_same, old]
    rfl
  · rw [HashMap.getOpt_set_other _ _ proper.1.symm, fills.self]
  · rw [HashMap.getOpt_set_other _ _ proper.2.symm, fills.up]
  · rw [List.map_append, List.mem_append]
    by_cases here : name = entry.1
    · exact .inr (.inr (.inr (List.mem_singleton.mpr here)))
    · rw [HashMap.getOpt_set_other _ _ here] at some
      obtain self | up | before := fills.names name some
      · exact .inl self
      · exact .inr (.inl up)
      · exact .inr (.inr (.inl before))
  · rw [List.forall_mem_append, List.forall_mem_singleton, HashMap.getOpt_set_same,
      Function.update_self]
    refine ⟨fun each member => ?_, rfl⟩
    rw [HashMap.getOpt_set_other _ _ (other each member), Function.update_of_ne (other each member),
      fills.found each member]
  · rw [List.forall_mem_append, List.forall_mem_singleton, Function.update_self]
    refine ⟨fun each member => ?_, fills.exists_⟩
    rw [Function.update_of_ne (other each member)]
    exact fills.newer each member
  · rw [List.forall_mem_append, List.forall_mem_singleton, Function.update_self]
    refine ⟨fun each member => ?_,
      shows_.congr (Nat.le_refl _) fun ref above _ => kept ref (fills.exists_.trans_le above)⟩
    rw [Function.update_of_ne (other each member)]
    have newer := fills.newer each member
    refine (fills.shown each member).congr extends_.next.le fun ref above below => ?_
    rw [kept ref (newer.trans_le above), extends_.files ref below]

private theorem Fills.shows_ {entries : List (List UInt8 × UInt32)}
    (fills : Fills files fs directory inode map targets entries)
    (there : (inode, .directory entries) ∈ files) : Shows files fs directory directory inode :=
  .directory targets there fills.exists_ fills.same fills.self fills.up fills.names fills.found
    fills.newer fills.shown

theorem Extends.trans {before middle after : Kernel.FileSystem} (first : Extends before middle)
    (last : Extends middle after) : Extends before after where
  next := first.next.trans last.next
  files other old := (last.files other (old.trans first.next)).trans (first.files other old)

/-- An object that is new may be changed. -/
theorem Extends.setEntry {before after : Kernel.FileSystem} (extends_ : Extends before after)
    (new : before.next ≤ directory) (name : ImmutableString)
    (target : FileRef) : Extends before (after.setEntry directory name target) where
  next := extends_.next
  files other old := by
    rw [Kernel.FileSystem.setEntry,
      Kernel.FileSystem.modify_other after _ (Nat.ne_of_lt (old.trans_le new)),
        extends_.files other old]

variable {memory : Memory} {place : UInt32 → Nat} {depth : Nat} {node : Node}

def Constructs (files : List (UInt32 × Node)) (memory : Memory) (place : UInt32 → Nat) (depth : Nat)
    (inode : UInt32) : Prop :=
  ∀ fs, ∃ after, construct memory depth fs (place inode) = .ok after ∧ Extends fs after ∧
    Shows files after fs.next fs.next inode

theorem format_load (stored : Stored memory place (inode, node)) :
    (Kernel.FileInfo.load memory (place inode)).format = node.mode &&& ModeFlags.format := by
  rw [stored.info, Kernel.FileInfo.format, UInt32.ofNat_toNat]

private theorem flashFile_stored {mode : ModeFlags} {bytes : List UInt8}
    (stored : Stored memory place (inode, .file mode bytes)) :
    (Kernel.FileInfo.load memory (place inode)).flashFile memory =
      flashFileOf inode mode bytes := by
  have behind : bytes.length ≤ place inode := stored.behind
  have below : place inode + 40 ≤ 2 ^ 32 := stored.below
  have read : (Kernel.FileInfo.load memory (place inode)).bytes memory = bytes := by
    refine Eq.trans ?_ (stored.bytes mode bytes rfl)
    rw [Kernel.FileInfo.bytes, stored.info, Memory.window]
    refine List.map_congr_left fun index member => ?_
    have inside : index < bytes.length := List.mem_range.mp member
    dsimp only [Node.size]
    rw [wrap_of_lt (by omega)]
  rw [Kernel.FileInfo.flashFile, read, stored.info, Kernel.FileInfo.file, UInt32.ofNat_toNat,
    UInt32.ofNat_toNat]
  rfl

private theorem addFile_stored (there : (inode, node) ∈ files)
    (stored : Stored memory place (inode, node)) (proper : ∀ file ∈ files, file.2.Proper)
    (constructs : ∀ entries, node = .directory entries → Constructs files memory place depth inode)
    (fs : Kernel.FileSystem) (directory : FileRef) :
    ∃ after, addFile memory (construct memory depth) fs directory (place inode) = .ok after ∧
    Extends fs after ∧
      Shows files after fs.next directory inode := by
  cases node with
  | file mode bytes =>
    have regular : mode &&& ModeFlags.format = ModeFlags.regular := proper _ there
    have format : (Kernel.FileInfo.load memory (place inode)).format = ModeFlags.regular :=
      (format_load stored).trans regular
    refine ⟨fs.allocate (flashFileOf inode mode bytes), ?_,
      ⟨Nat.lt_succ_self _, fun other old => fs.allocate_old _ old⟩,
      .file there (Nat.lt_succ_self _) (fs.allocate_new _)⟩
    rw [addFile, format, if_neg (by decide), flashFile_stored stored]
    exact Kernel.require_bind_ok.mpr ⟨rfl, rfl⟩
  | directory entries =>
    have format : (Kernel.FileInfo.load memory (place inode)).format = ModeFlags.directory :=
      (format_load stored).trans (by decide : ModeFlags.directory &&& ModeFlags.format = ModeFlags.directory)
    obtain ⟨made, constructed, extends_, shows_⟩ := constructs entries rfl fs
    refine ⟨made.setEntry fs.next dotdot directory, ?_, extends_.setEntry (Nat.le_refl _) _ _,
      shows_.enter (fun entries there entry member => (proper _ there entry member).2.2.2.2) directory⟩
    rw [addFile, format, if_pos rfl, constructed]
    rfl

private theorem addEntries_stored {entries rest : List (List UInt8 × UInt32)} {rounds : Nat}
    (stored : Stored memory place (inode, .directory entries))
    (proper : (Node.directory entries).Proper) (distinct : (entries.map Prod.fst).Nodup)
    (adds : ∀ entry ∈ entries, ∀ fs, ∃ after, addFile memory (construct memory depth) fs directory (place entry.2) = .ok after ∧
      Extends fs after ∧ Shows files after fs.next directory entry.2)
    (split : done ++ rest = entries) (fills : Fills files fs directory inode map targets done)
    (enough : rest.length < rounds) :
    ∃ after map targets, addEntries memory (construct memory depth) rounds fs directory
        (place inode - entries.length * infoSize + done.length *
          infoSize) (place inode) = .ok after ∧
      Fills files after directory inode map targets entries ∧ fs.next ≤ after.next ∧
      ∀ other < directory, after.files other = fs.files other := by
  have behind : entries.length * infoSize ≤ place inode := stored.behind
  have below : place inode + 40 ≤ 2 ^ 32 := stored.below
  induction rest generalizing fs map targets done rounds with
  | nil =>
    obtain ⟨rounds, rfl⟩ := Nat.exists_eq_add_of_lt enough
    rw [List.append_nil] at split
    refine ⟨fs, map, targets, ?_, split ▸ fills, Nat.le_refl _, fun other _ => rfl⟩
    rw [addEntries, split, if_pos (by omega)]
  | cons entry rest ih =>
    obtain ⟨rounds, rfl⟩ := Nat.exists_eq_add_of_lt enough
    have length : entries.length = done.length + (rest.length + 1) := by
      rw [← split, List.length_append, List.length_cons]
    have there : entries[done.length]? = some entry := by
      rw [← split, List.getElem?_append_right (Nat.le_refl _), Nat.sub_self]
      rfl
    have member := List.mem_of_getElem? there
    obtain ⟨load, window⟩ := stored.entries entries rfl done.length entry there
    obtain ⟨_, free, short, notDot, notDotdot⟩ := proper entry member
    have new : entry.1 ∉ done.map Prod.fst := by
      rw [← split, List.map_append, List.map_cons, List.nodup_append] at distinct
      exact fun before => distinct.2.2 _ before _ List.mem_cons_self rfl
    obtain ⟨made, added, extends_, shows_⟩ := adds entry member fs
    have next := fills.add extends_ shows_ new ⟨notDot, notDotdot⟩
    have rounds_ : rest.length < (entry :: rest).length + rounds := by rw [List.length_cons]; omega
    obtain ⟨after, last, aims, further, filled, grows, kept⟩ :=
      ih (by rw [List.append_assoc]; exact split) next rounds_
    have size : infoSize = 256 := rfl
    have offset : infoOffset = 252 := rfl
    have size_ : (Node.directory entries).size = entries.length * infoSize := rfl
    rw [size_] at load window
    dsimp only at load window
    have inside : entries.length * infoSize = done.length * infoSize +
      (rest.length * infoSize + infoSize) := by
      rw [length, Nat.add_mul, Nat.add_mul, Nat.one_mul]
    have read : cstring memory (2 ^ 32) (place inode - entries.length * infoSize + done.length * infoSize) = .ok entry.1 :=
      cstring_terminated free window (by omega) (by omega)
    have step : place inode - entries.length * infoSize + (done ++ [entry]).length * infoSize =
        place inode - entries.length * infoSize + done.length * infoSize + infoSize := by
      rw [List.length_append, List.length_singleton, Nat.add_mul, Nat.one_mul, Nat.add_assoc]
    refine ⟨after, last, aims, ?_, filled, extends_.next.le.trans grows, fun other old => ?_⟩
    · rw [step] at further
      rw [addEntries, if_neg (by omega), wrap_of_lt (by omega), load, wrap_of_lt (by omega), added, read]
      exact further
    · rw [kept other old, Kernel.FileSystem.setEntry,
        Kernel.FileSystem.modify_other made _ (Nat.ne_of_lt old),
        extends_.files other (old.trans fills.exists_)]

private theorem construct_stored {entries : List (List UInt8 × UInt32)}
    (there : (inode, .directory entries) ∈ files)
    (stored : Stored memory place (inode, .directory entries))
    (proper : (Node.directory entries).Proper) (distinct : (entries.map Prod.fst).Nodup)
    (adds : ∀ entry ∈ entries, ∀ fs directory, ∃ after,
      addFile memory (construct memory depth) fs directory (place entry.2) = .ok after ∧
      Extends fs after ∧ Shows files after fs.next directory entry.2) :
      Constructs files memory place (depth + 1) inode := by
  intro fs
  have behind : entries.length * infoSize ≤ place inode := stored.behind
  have below : place inode + 40 ≤ 2 ^ 32 := stored.below
  have size : (Node.directory entries).size = entries.length * infoSize := rfl
  let object := flashDirectoryOf inode .empty
  let start := ((fs.allocate object).setEntry fs.next dot fs.next).setEntry fs.next dotdot fs.next
  have kept (other : FileRef) (old : other < fs.next) : start.files other = fs.files other := by
    have other_ := Nat.ne_of_lt old
    dsimp only [start]
    rw [Kernel.FileSystem.setEntry, Kernel.FileSystem.modify_other _ _ other_,
      Kernel.FileSystem.setEntry,
      Kernel.FileSystem.modify_other _ _ other_, fs.allocate_old _ old]
  have fills : Fills files start fs.next inode ((HashMap.empty.set dot fs.next).set dotdot fs.next)
    (fun _ => 0) [] := by
    refine ⟨Nat.lt_succ_self _, ?_, ?_, HashMap.getOpt_set_same .., fun name some => ?_,
      List.forall_mem_nil _, List.forall_mem_nil _, List.forall_mem_nil _⟩
    · dsimp only [start]
      rw [Kernel.FileSystem.setEntry, Kernel.FileSystem.modify_same, Kernel.FileSystem.setEntry,
        Kernel.FileSystem.modify_same,
        Kernel.FileSystem.allocate_new]
      rfl
    · rw [HashMap.getOpt_set_other _ _ (by decide), HashMap.getOpt_set_same]
    · by_cases up : name = dotdot
      · exact .inr (.inl up)
      · rw [HashMap.getOpt_set_other _ _ up] at some
        by_cases self : name = dot
        · exact .inl self
        · rw [HashMap.getOpt_set_other _ _ self] at some
          cases some
  obtain ⟨after, map, targets, added, filled, grows, left⟩ :=
    addEntries_stored stored proper distinct
    (fun entry member fs => adds entry member fs _) (List.nil_append entries) fills
      (Nat.lt_succ_self entries.length)
  refine ⟨after, ?_, ⟨(Nat.lt_succ_self fs.next).trans_le grows,
    fun other old => (left other old).trans (kept other old)⟩, filled.shows_ there⟩
  have info := stored.info
  rw [size] at info
  have made : Kernel.FileInfo.file ⟨inode.toNat, ModeFlags.directory.toNat,
    entries.length * infoSize, place inode - entries.length * infoSize⟩
      0xdead (.directory .empty) = object := by
    rw [Kernel.FileInfo.file, UInt32.ofNat_toNat, UInt32.ofNat_toNat]
    rfl
  have rounds : entries.length * infoSize / infoSize = entries.length :=
    Nat.mul_div_cancel _ (by decide)
  have stop : wrap (place inode - entries.length * infoSize + entries.length * infoSize) =
    place inode := by
    rw [Nat.sub_add_cancel behind, wrap_of_lt (by omega)]
  rw [List.length_nil, Nat.zero_mul, Nat.add_zero] at added
  rw [construct, info]
  dsimp only [Node.mode]
  rw [made, rounds, stop]
  exact added

/-- The constructor finds every directory of a tree, if the stack is as deep as the tree is
large. -/
theorem constructs_stored (bottomUp : BottomUp [] files)
    (stored : ∀ file ∈ files, Stored memory place file)
    (distinct : ∀ inode entries, (inode, .directory entries) ∈ files →
      (entries.map Prod.fst).Nodup) :
    ∀ front rest, front ++ rest = files →
    ∀ depth ≥ front.length, ∀ inode entries, (inode, .directory entries) ∈ front →
      Constructs files memory place depth inode := by
  intro front
  induction front using List.reverseRecOn with
  | nil => exact fun _ _ _ _ _ _ => nofun
  | append_singleton front last ih =>
    intro rest split depth enough inode entries member
    rw [List.length_append, List.length_singleton] at enough
    have earlier := ih (last :: rest) (by rw [← split, List.append_assoc]; rfl)
    obtain before | same := List.mem_append.mp member
    · exact earlier depth (Nat.le_of_succ_le enough) inode entries before
    · obtain rfl := List.mem_singleton.mp same
      obtain ⟨depth, rfl⟩ := Nat.exists_eq_add_of_lt enough
      have inside {file : UInt32 × Node} (there : file ∈ front) : file ∈ files :=
        split ▸ List.mem_append_left _ (List.mem_append_left _ there)
      have there : (inode, .directory entries) ∈ files := split ▸ List.mem_append_left _ member
      have known := bottomUp
      rw [← split, bottomUp_append, bottomUp_concat] at known
      obtain ⟨⟨_, _, proper, children⟩, _⟩ := known
      refine construct_stored there (stored _ there) proper (distinct inode entries there) fun entry
        mine fs directory => ?_
      obtain ⟨⟨child, node⟩, found, named⟩ :=
        List.mem_map.mp (children entry.2 (List.mem_map_of_mem mine))
      obtain rfl : child = entry.2 := named
      refine addFile_stored (inside found) (stored _ (inside found)) bottomUp.proper
        (fun entries same => ?_) fs directory
      exact earlier _ (by omega) entry.2 entries (same ▸ found)

/-- The records that are read for a directory: its own, those of its entries, and what is read for
the files in it. -/
theorem mem_records {entries : List (List UInt8 × UInt32)} {address : Nat}
    (stored : Stored memory place (inode, .directory entries)) :
    address ∈ Kernel.FlashDirectory.records memory (depth + 1) (place inode) ↔
      address = place inode ∨ ∃ index entry, entries[index]? = some entry ∧
        (address = place inode - entries.length * infoSize + index * infoSize ∨
          if (Kernel.FileInfo.load memory (place entry.2)).format = ModeFlags.directory then
            address ∈ Kernel.FlashDirectory.records memory depth (place entry.2)
          else address = place entry.2) := by
  have behind : entries.length * infoSize ≤ place inode := stored.behind
  have below : place inode + 40 ≤ 2 ^ 32 := stored.below
  have size : infoSize = 256 := rfl
  have offset : infoOffset = 252 := rfl
  have rounds : entries.length * infoSize / infoSize = entries.length :=
    Nat.mul_div_cancel _ (by decide)
  have loaded : Kernel.FileInfo.load memory (place inode) =
      ⟨inode.toNat, ModeFlags.directory.toNat, entries.length * infoSize,
        place inode - entries.length * infoSize⟩ := stored.info
  have target : ∀ index entry, entries[index]? = some entry →
      wrap (place inode - entries.length * infoSize + index * infoSize) =
        place inode - entries.length * infoSize + index * infoSize ∧
        memory.load (wrap (place inode - entries.length * infoSize + index * infoSize + infoOffset)) = place entry.2 := by
    intro index entry there
    obtain ⟨inside, _⟩ := List.getElem?_eq_some_iff.mp there
    obtain ⟨more, length⟩ := Nat.exists_eq_add_of_lt inside
    have within : entries.length * infoSize = index * infoSize + (more * infoSize + infoSize) := by
      rw [length, Nat.add_mul, Nat.add_mul, Nat.one_mul, Nat.add_assoc]
    have load := (stored.entries entries rfl index entry there).1
    have size_ : (Node.directory entries).size = entries.length * infoSize := rfl
    dsimp only at load
    rw [size_] at load
    exact ⟨wrap_of_lt (by omega), by rw [wrap_of_lt (by omega), load]⟩
  rw [Kernel.FlashDirectory.records, loaded]
  simp only [rounds, List.mem_cons, List.mem_flatMap, List.mem_map, List.mem_range]
  refine or_congr_right ⟨?_, ?_⟩
  · rintro ⟨_, ⟨index, inside, rfl⟩, member⟩
    have there : entries[index]? = some entries[index] := List.getElem?_eq_getElem inside
    obtain ⟨here, load⟩ := target index _ there
    rw [here, load] at member
    refine ⟨index, _, there, ?_⟩
    split at member
    next directory =>
      rw [if_pos directory]
      exact List.mem_cons.mp member
    next other =>
      rw [if_neg other]
      exact (List.mem_cons.mp member).imp_right List.mem_singleton.mp
  · rintro ⟨index, entry, there, member⟩
    obtain ⟨here, load⟩ := target index entry there
    refine ⟨_, ⟨index, (List.getElem?_eq_some_iff.mp there).1, here⟩, ?_⟩
    rw [load]
    split
    next directory =>
      rw [if_pos directory] at member
      exact List.mem_cons.mpr member
    next other =>
      rw [if_neg other] at member
      exact List.mem_cons.mpr (member.imp_right List.mem_singleton.mpr)

theorem isDirectory_load (stored : Stored memory place (inode, node)) (proper : node.Proper) :
    (Kernel.FileInfo.load memory (place inode)).format = ModeFlags.directory ↔
    ∃ entries, node = .directory entries := by
  rw [format_load stored]
  cases node with
  | file mode bytes =>
    have regular : mode &&& ModeFlags.format = ModeFlags.regular := proper
    rw [Node.mode, regular]
    exact ⟨fun same => absurd same (by decide), fun ⟨_, same⟩ => by cases same⟩
  | directory entries =>
      exact ⟨fun _ => ⟨entries, rfl⟩,
        fun _ => (by decide : ModeFlags.directory &&& ModeFlags.format = ModeFlags.directory)⟩

private theorem records_stored (bottomUp : BottomUp [] files)
    (stored : ∀ file ∈ files, Stored memory place file) {address : Nat} :
    ∀ depth inode entries, (inode, .directory entries) ∈ files →
    address ∈ Kernel.FlashDirectory.records memory depth (place inode) →
      ∃ file ∈ files, address = place file.1 ∨
        ∃ index < file.2.children.length, address = place file.1 - file.2.children.length *
          infoSize + index * infoSize := by
  intro depth
  induction depth with
  | zero => exact fun _ _ _ => nofun
  | succ depth ih =>
    intro inode entries there member
    obtain own | ⟨index, entry, found, member⟩ := (mem_records (stored _ there)).mp member
    · exact ⟨_, there, .inl own⟩
    · have among := List.mem_of_getElem? found
      obtain ⟨⟨child, node⟩, childThere, named⟩ :=
        List.mem_map.mp (bottomUp.children _ there entry.2 (List.mem_map_of_mem among))
      obtain rfl : child = entry.2 := named
      obtain here | later := member
      · have count : (Node.directory entries).children.length = entries.length := List.length_map _
        exact ⟨_, there, .inr ⟨index, count ▸ (List.getElem?_eq_some_iff.mp found).1, count ▸ here⟩⟩
      · split at later
        next directory =>
          obtain ⟨inner, rfl⟩ :=
            (isDirectory_load (stored _ childThere) (bottomUp.proper _ childThere)).mp directory
          exact ih _ inner childThere later
        next => exact ⟨_, childThere, .inl later⟩

private theorem records_reached (bottomUp : BottomUp [] files)
    (stored : ∀ file ∈ files, Stored memory place file) {target : UInt32} :
    ∀ front rest, front ++ rest = files →
    ∀ depth ≥ front.length, ∀ inode entries, (inode, .directory entries) ∈ front →
      Relation.ReflTransGen (Enters files) inode target →
      place target ∈ Kernel.FlashDirectory.records memory depth (place inode) := by
  intro front
  induction front using List.reverseRecOn with
  | nil => exact fun _ _ _ _ _ _ => nofun
  | append_singleton front last ih =>
    intro rest split depth enough inode entries member path
    rw [List.length_append, List.length_singleton] at enough
    have earlier := ih (last :: rest) (by rw [← split, List.append_assoc]; rfl)
    obtain before | same := List.mem_append.mp member
    · exact earlier depth (Nat.le_of_succ_le enough) inode entries before path
    · obtain rfl := List.mem_singleton.mp same
      obtain ⟨depth, rfl⟩ := Nat.exists_eq_add_of_lt enough
      have inside {file : UInt32 × Node} (there : file ∈ front) : file ∈ files :=
        split ▸ List.mem_append_left _ (List.mem_append_left _ there)
      have there : (inode, .directory entries) ∈ files := split ▸ List.mem_append_left _ member
      have known := bottomUp
      rw [← split, bottomUp_append, bottomUp_concat] at known
      obtain ⟨⟨_, _, _, children⟩, _⟩ := known
      rw [mem_records (stored _ there)]
      obtain rfl | ⟨child, ⟨node, nodeThere, mine⟩, further⟩ := path.cases_head
      · exact .inl rfl
      · obtain rfl := bottomUp.unique there nodeThere
        obtain ⟨entry, among, rfl⟩ := List.mem_map.mp mine
        obtain ⟨index, found⟩ := List.mem_iff_getElem?.mp among
        obtain ⟨⟨child, node⟩, childThere, named⟩ := List.mem_map.mp (children entry.2 mine)
        obtain rfl : child = entry.2 := named
        refine .inr ⟨index, entry, found, .inr ?_⟩
        split
        next directory =>
          obtain ⟨inner, rfl⟩ :=
            (isDirectory_load (stored _ (inside childThere)) (bottomUp.proper _ (inside childThere))).mp directory
          exact earlier _ (by omega) _ inner childThere further
        next plain =>
          have file := mt (isDirectory_load (stored _ (inside childThere)) (bottomUp.proper _ (inside childThere))).mpr plain
          obtain rfl | ⟨_, ⟨other, otherThere, theirs⟩, _⟩ := further.cases_head
          · rfl
          · obtain rfl := bottomUp.unique (inside childThere) otherThere
            cases node with
            | file mode bytes => cases theirs
            | directory inner => exact absurd ⟨inner, rfl⟩ file

/-- The kernel finds a tree that is in the memory if and only if all records are at multiples of a
word. -/
theorem reconstructs_iff (tree : Tree files) (stored : ∀ file ∈ files, Stored memory place file)
    (distinct : ∀ inode entries, (inode, .directory entries) ∈ files →
      (entries.map Prod.fst).Nodup) :
    Reconstructs memory (place 2) files ↔ ∀ file ∈ files, 4 ∣ place file.1 := by
  obtain ⟨entries, root⟩ := tree.root
  have bottomUp := tree.bottomUp
  constructor
  · rintro ⟨enough, finds⟩ file member
    obtain ⟨after, _, _, aligned⟩ :=
      finds (max enough files.length) (Nat.le_max_left _ _) Kernel.consoleFileSystem
    exact aligned _ (records_reached bottomUp stored files [] (List.append_nil files) _ (Nat.le_max_right _ _) 2 entries root
      (tree.reached file member))
  · intro aligned
    refine ⟨files.length, fun depth enough fs => ?_⟩
    obtain ⟨after, constructed, extends_, shows_⟩ :=
      constructs_stored bottomUp stored distinct files [] (List.append_nil files) depth enough
      2 entries root fs
    have ino : (after.files fs.next).ino = 2 := by
      cases shows_ with
      | file there exists_ same => rw [same, flashFileOf]
      | directory targets there exists_ same self up names found newer shown =>
          rw [same, flashDirectoryOf]
    refine ⟨after, bind_ok.mpr ⟨after, constructed, Kernel.require_bind_ok.mpr ⟨ino, rfl⟩⟩, shows_,
      fun address member => ?_⟩
    obtain ⟨file, there, rfl | ⟨index, _, rfl⟩⟩ :=
      records_stored bottomUp stored depth 2 entries root member
    · exact aligned file there
    · have size : 4 ∣ infoSize := by decide
      exact Nat.dvd_add (Nat.dvd_sub (aligned file there) (Nat.dvd_mul_left_of_dvd size _))
        (Nat.dvd_mul_left_of_dvd size _)

end
end PicoOs.Tools
