import PicoOs.Proofs.FlashImages
import PicoOs.Proofs.FlashReaders

/-! The tree that is given to `ElfEmbed` is the tree that the kernel finds, if the processor can
load the records where they are. -/

namespace PicoOs.Tools
open Library Elf
open Kernel (literal ModeFlags)

section
variable {memory : Memory} {base offset position : Nat} {image : List UInt8}

theorem Loaded.byte (loaded : Loaded memory base image) (inside : position < image.length) :
    (memory (base + position)).toNat = byteAt image position := by
  have there : (memory.window base image.length)[position]? = some (memory (base + position)) := by
    rw [Memory.window, List.getElem?_map, List.getElem?_range inside]
    rfl
  rw [loaded.window] at there
  rw [byteAt, List.getD_eq_getElem?_getD, there, Option.getD_some]

theorem Loaded.load (loaded : Loaded memory base image) (inside : offset + 4 ≤ image.length) :
    memory.load (base + offset) = (wordAt image offset).toNat := by
  have byte (further : Nat) (small : further < 4) : (memory (base + offset + further)).toNat =
    byteAt image (offset + further) := by
    rw [Nat.add_assoc]
    exact loaded.byte (by omega)
  have bound (place : Nat) : byteAt image place < 2 ^ 8 := UInt8.toNat_lt _
  have b0 := bound offset
  have b1 := bound (offset + 1)
  have b2 := bound (offset + 2)
  have b3 := bound (offset + 3)
  rw [Memory.load, loaded.byte (by omega : offset < image.length), byte 1 (by decide), byte 2 (by decide), byte 3 (by decide), wordAt,
    UInt32.toNat_ofNat_of_lt' (by rw [UInt32.size]; omega)]

end

namespace FlashDirectoryInfo

private theorem read_name (file : List UInt8) (offset : Nat) (place : Fin 252) :
    (Record.read file offset : FlashDirectoryInfo).name place =
      (excerpt file offset 256).getD place 0 := rfl

private theorem read_infoRaw (file : List UInt8) (offset : Nat) :
    (Record.read file offset : FlashDirectoryInfo).infoRaw =
      wordAt (excerpt file offset 256) infoRawOffset := rfl

end FlashDirectoryInfo

namespace Item
variable {items : List Item} {item : Item} {offsets : UInt32 → UInt32} {base offset position : Nat}

def image (items : List Item) (base : Nat) : List UInt8 :=
  (items.flatMap (patches base)).foldl addWord (allBytes items)

private theorem Stores.size (stores : item.Stores offsets) :
    item.contents.length = item.node.size := by
  unfold Stores at stores
  cases node : item.node with
  | file mode bytes =>
    rw [node] at stores
    exact congrArg List.length stores
  | directory entries =>
    rw [node] at stores
    obtain ⟨indeterminate, contents⟩ := stores
    rw [contents, Record.length_encodeAll, List.length_map]
    rfl

namespace Laid

theorem length_image (laid : Laid items) (base : Nat) :
    (image items base).length = (allBytes items).length :=
  length_addWords (laid.patches_inside base)

theorem byte_image (laid : Laid items) (member : item ∈ items) (base : Nat)
    (above : item.start ≤ position) (below : position < item.stop)
    (apart : ∀ patch ∈ item.patches base, position < patch.1 ∨ patch.1 + 4 ≤ position) :
    byteAt (image items base) position = byteAt (allBytes items) position := by
  refine byteAt_addWords_other (laid.patches_inside base) fun patch among => ?_
  obtain ⟨other, there, mine⟩ := List.mem_flatMap.mp among
  obtain ⟨_, stores⟩ := laid.follows_stores other there
  have inside := stores.patches_inside patch mine
  by_cases same : item = other
  · exact apart patch (same ▸ mine)
  · have separate := laid.separate member there same
    omega

private theorem word_image (laid : Laid items) (member : item ∈ items) (base : Nat)
    (above : item.start ≤ offset) (below : offset + 4 ≤ item.stop)
    (apart : ∀ patch ∈ item.patches base, WordsApart offset patch.1) :
    wordAt (image items base) offset = wordAt (allBytes items) offset :=
  wordAt_congr fun index small =>
    laid.byte_image member base (by omega) (by omega) fun patch mine => by
    have away := apart patch mine
    unfold WordsApart at away
    omega

theorem pointer_image (laid : Laid items) (member : item ∈ items) {patch : Nat × UInt32}
    (mine : patch ∈ item.patches base) :
    wordAt (image items base) patch.1 = patch.2 + wordAt (allBytes items) patch.1 :=
  wordAt_addWords (laid.patches_inside base) (laid.patches_apart base)
    (List.mem_flatMap.mpr ⟨item, member, mine⟩)

theorem contents_there (laid : Laid items) (member : item ∈ items) :
    excerpt (allBytes items) item.start item.contents.length = item.contents := by
  have whole := laid.excerpt_bytes item member
  have part : item.contents.length ≤ item.bytes.length := item.length_bytes ▸ Nat.le_add_right _ _
  have inside := @excerpt_excerpt _ (allBytes items) 0 item.contents.length item.start
    item.bytes.length (by omega)
  rw [whole, Nat.add_zero] at inside
  rw [← inside, bytes, FileSystem.fileBytes, excerpt, List.drop_zero, List.take_left]

theorem record_there (laid : Laid items) (member : item ∈ items) :
    excerpt (allBytes items) item.record 40 =
      Record.encode (FileSystem.fileInfo item.inode item.node.mode item.contents.length) := by
  have whole := laid.excerpt_bytes item member
  have inside := @excerpt_excerpt _ (allBytes items) item.contents.length 40 item.start
    item.bytes.length item.length_bytes.ge
  have size : (Record.encode (FileSystem.fileInfo item.inode item.node.mode item.contents.length)).length = 40 := Record.length_encode _
  have behind := @excerpt_append_right _ 0 40 item.contents
    (Record.encode (FileSystem.fileInfo item.inode item.node.mode item.contents.length))
  rw [whole] at inside
  rw [record, ← inside, bytes, FileSystem.fileBytes]
  rw [Nat.add_zero] at behind
  rw [behind, excerpt, List.drop_zero, ← size, List.take_length]

private theorem word_contents (laid : Laid items) (member : item ∈ items)
    (inside : offset + 4 ≤ item.contents.length) :
    wordAt (allBytes items) (item.start + offset) = wordAt item.contents offset := by
  rw [← wordAt_excerpt inside, laid.contents_there member]

theorem byte_contents (laid : Laid items) (member : item ∈ items)
    (inside : position < item.contents.length) :
    byteAt (allBytes items) (item.start + position) = byteAt item.contents position := by
  rw [← byteAt_excerpt inside, laid.contents_there member]

private theorem field_image (laid : Laid items) (member : item ∈ items) (base : Nat)
    (inside : offset + 4 ≤ FileInfo.dataOffset) :
    wordAt (image items base) (item.record + offset) =
      wordAt (Record.encode (FileSystem.fileInfo item.inode item.node.mode item.contents.length)) offset := by
  obtain ⟨_, stores⟩ := laid.follows_stores item member
  have covers := stores.covers
  have data : FileInfo.dataOffset = 36 := rfl
  rw [laid.word_image member base, ← wordAt_excerpt (by omega : offset + 4 ≤ 40), laid.record_there member]
  · rw [record]
    omega
  · rw [stop]
    omega
  · refine List.forall_mem_cons.mpr ⟨.inl (by omega), fun patch among => .inr ?_⟩
    obtain ⟨_, entry, rfl⟩ := List.mem_map.mp among
    obtain ⟨index, less, rfl⟩ := FileSystem.mem_entryOffsets.mp entry
    simp only [record, FileSystem.infoSize, FlashDirectoryInfo.infoRawOffset] at covers ⊢
    omega

private theorem data_image (laid : Laid items) (member : item ∈ items) (base : Nat) :
    wordAt (image items base) (item.record + FileInfo.dataOffset) = .ofNat (base + item.start) := by
  have patched := laid.pointer_image member (List.mem_cons_self : _ ∈ item.patches base)
  have written := Record.decode_encode (FileSystem.fileInfo item.inode item.node.mode item.contents.length)
  have zero : wordAt (Record.encode (FileSystem.fileInfo item.inode item.node.mode item.contents.length)) 36 = 0 :=
    (congrArg FileInfo.data written :)
  dsimp only at patched
  rw [patched, ← wordAt_excerpt (by decide : FileInfo.dataOffset + 4 ≤ 40), laid.record_there member, FileInfo.dataOffset, zero, UInt32.add_zero]

private theorem info_image (laid : Laid items) (member : item ∈ items) (base : Nat)
    {entries : List (List UInt8 × UInt32)}
    (node : item.node = .directory entries) (stores : item.Stores offsets) {index : Nat}
    {entry : List UInt8 × UInt32}
    (there : entries[index]? = some entry) :
    wordAt (image items base) (item.start + (index * FileSystem.infoSize +
      FlashDirectoryInfo.infoRawOffset)) = .ofNat base + offsets entry.2 := by
  have inside := (List.getElem?_eq_some_iff.mp there).1
  have covers := stores.covers
  have count : item.node.children.length = entries.length := by
    rw [node, Node.children, List.length_map]
  have size : FileSystem.infoSize = 256 := rfl
  rw [count, size] at covers
  have fits : index * 256 + FlashDirectoryInfo.infoRawOffset + 4 ≤ item.contents.length := by
    have next : (index + 1) * 256 ≤ entries.length * 256 := Nat.mul_le_mul_right 256 inside
    rw [Nat.succ_mul] at next
    exact next.trans covers
  have offset : 0 + index * FileSystem.infoSize ∈ FileSystem.entryOffsets 0
    item.node.children.length :=
    FileSystem.mem_entryOffsets.mpr ⟨index, count.symm ▸ inside, rfl⟩
  have patched := laid.pointer_image member
    (List.mem_cons_of_mem _ (List.mem_map_of_mem offset) : (item.start + (0 + index * FileSystem.infoSize + FlashDirectoryInfo.infoRawOffset),
      UInt32.ofNat base) ∈ item.patches base)
  unfold Stores at stores
  rw [node] at stores
  obtain ⟨indeterminate, contents⟩ := stores
  have record : (Record.read item.contents (index * 256) : FlashDirectoryInfo) =
      ⟨FlashDirectoryInfo.strlcpy (indeterminate entry.1) entry.1, offsets entry.2⟩ := by
    rw [contents]
    exact Record.read_encodeAll (by rw [List.getElem?_map, there]; rfl)
  have info := FlashDirectoryInfo.read_infoRaw item.contents (index * 256)
  rw [record, wordAt_excerpt (by decide)] at info
  have word := laid.word_contents member fits
  rw [Nat.zero_add] at patched
  rw [patched]
  exact congrArg (UInt32.ofNat base + ·) (word.trans info.symm)

private theorem name_image (laid : Laid items) (member : item ∈ items) (base : Nat)
    {entries : List (List UInt8 × UInt32)}
    (node : item.node = .directory entries) (stores : item.Stores offsets) {index : Nat}
    {entry : List UInt8 × UInt32}
    (there : entries[index]? = some entry) : ∃ indeterminate : Fin 252 → UInt8, ∀ place : Fin 252,
      byteAt (image items base) (item.start + (index * FileSystem.infoSize + place)) =
        (FlashDirectoryInfo.strlcpy indeterminate entry.1 place).toNat := by
  have inside := (List.getElem?_eq_some_iff.mp there).1
  have covers := stores.covers
  have count : item.node.children.length = entries.length := by
    rw [node, Node.children, List.length_map]
  have size : FileSystem.infoSize = 256 := rfl
  rw [count, size] at covers
  have stored := stores
  unfold Stores at stores
  rw [node] at stores
  obtain ⟨indeterminate, contents⟩ := stores
  have record : (Record.read item.contents (index * 256) : FlashDirectoryInfo) =
      ⟨FlashDirectoryInfo.strlcpy (indeterminate entry.1) entry.1, offsets entry.2⟩ := by
    rw [contents]
    exact Record.read_encodeAll (by rw [List.getElem?_map, there]; rfl)
  refine ⟨indeterminate entry.1, fun place => ?_⟩
  have small := place.isLt
  have name := FlashDirectoryInfo.read_name item.contents (index * 256) place
  rw [record] at name
  have byte : byteAt (excerpt item.contents (index * 256) 256) place =
      (FlashDirectoryInfo.strlcpy (indeterminate entry.1) entry.1 place).toNat :=
        congrArg UInt8.toNat name.symm
  rw [byteAt_excerpt (by omega)] at byte
  rw [size, laid.byte_image member base (by omega) (by simp only [stop, Item.record]; omega), laid.byte_contents member (by omega), byte]
  refine List.forall_mem_cons.mpr ⟨.inl (by simp only [Item.record]; omega), fun patch among => ?_⟩
  obtain ⟨_, other, rfl⟩ := List.mem_map.mp among
  obtain ⟨another, less, rfl⟩ := FileSystem.mem_entryOffsets.mp other
  simp only [FileSystem.infoSize, FlashDirectoryInfo.infoRawOffset]
  omega

end Laid
end Item

private theorem strlcpy_terminated {name : List UInt8} (free : 0 ∉ name) (short : name.length ≤ 251)
    (indeterminate : Fin 252 → UInt8) (index : Nat)
    (inside : index < (terminated name).length) (small : index < 252) :
    FlashDirectoryInfo.strlcpy indeterminate name ⟨index, small⟩ = (terminated name)[index] := by
  have whole : (name.takeWhile (· ≠ 0)).take 251 = name := by
    have all : ∀ byte ∈ name, decide (byte ≠ 0) = true :=
      fun byte member => decide_eq_true fun zero => free (zero ▸ member)
    rw [List.takeWhile_eq_self_iff.mpr all, List.take_of_length_le short]
  have length : (terminated name).length = name.length + 1 := List.length_append
  simp only [FlashDirectoryInfo.strlcpy, whole, terminated]
  split
  next before =>
    rw [List.getElem_append_left before, List.getD_eq_getElem?_getD,
      List.getElem?_eq_getElem before, Option.getD_some]
  next behind =>
    have last : index = name.length := by omega
    rw [if_pos last, List.getElem_append_right (by omega)]
    simp only [List.getElem_singleton]

namespace Item
variable {items : List Item} {item : Item} {memory : Memory} {base : Nat}

def place (items : List Item) (base : Nat) (inode : UInt32) : Nat :=
  base + (offsets items inode).toNat

namespace Laid

theorem place_item (laid : Laid items) (bottomUp : BottomUp [] (items.map pair))
    (small : (allBytes items).length < 2 ^ 32)
    (member : item ∈ items) (base : Nat) : place items base item.inode = base + item.record := by
  have distinct := bottomUp.distinct
  rw [List.map_map] at distinct
  have inside := laid.inside item member
  rw [stop] at inside
  rw [place, laid.offsets_item distinct item member,
    UInt32.toNat_ofNat_of_lt' (by rw [UInt32.size]; omega)]

private theorem info_loaded (laid : Laid items) (small : (allBytes items).length < 2 ^ 32)
    (member : item ∈ items) (loaded : Loaded memory base (image items base)) :
    Kernel.FileInfo.load memory (base + item.record) =
      ⟨item.inode.toNat, item.node.mode.toNat, item.contents.length, base + item.start⟩ := by
  have inside := laid.inside item member
  have room := loaded.inside
  rw [laid.length_image] at room
  rw [stop] at inside
  have load {offset : Nat} (within : offset + 4 ≤ 40) :
      memory.load (wrap (base + item.record + offset)) =
        (wordAt (image items base) (item.record + offset)).toNat := by
    rw [wrap_of_lt (by omega), Nat.add_assoc, loaded.load (by rw [laid.length_image]; omega)]
  let info := FileSystem.fileInfo item.inode item.node.mode item.contents.length
  have written := Record.decode_encode info
  have ino : wordAt (Record.encode info) 4 = item.inode := (congrArg FileInfo.ino written :)
  have mode : wordAt (Record.encode info) 8 = item.node.mode := (congrArg FileInfo.mode written :)
  have size : wordAt (Record.encode info) 16 = .ofNat item.contents.length :=
    (congrArg FileInfo.size written :)
  have start : base + item.start < 2 ^ 32 := by
    rw [record] at inside
    omega
  have length : item.contents.length < 2 ^ 32 := by
    rw [record] at inside
    omega
  rw [Kernel.FileInfo.load, load (by decide), load (by decide), load (by decide), load (by decide), laid.field_image member base (by decide),
    laid.field_image member base (by decide), laid.field_image member base (by decide), ino, mode, size, UInt32.toNat_ofNat_of_lt' length]
  exact congrArg (Kernel.FileInfo.mk _ _ _) ((congrArg UInt32.toNat (laid.data_image member base)).trans (UInt32.toNat_ofNat_of_lt' start))

private theorem window_loaded (laid : Laid items) (member : item ∈ items)
    (loaded : Loaded memory base (image items base)) (plain : item.node.children = []) :
    memory.window (base + item.start) item.contents.length = item.contents := by
  have inside := laid.inside item member
  rw [stop, record] at inside
  have length := laid.length_image base
  apply List.ext_getElem (Memory.window_length ..)
  intro index _ within
  have byte : (memory (base + (item.start + index))).toNat = byteAt item.contents index := by
    rw [loaded.byte (by omega), laid.byte_image member base (by omega) (by rw [stop, record]; omega), laid.byte_contents member within]
    rw [patches, plain]
    exact List.forall_mem_singleton.mpr (.inl (by rw [record]; omega))
  rw [byteAt, List.getD_eq_getElem?_getD, List.getElem?_eq_getElem within, Option.getD_some] at byte
  simp only [Memory.window, List.getElem_map, List.getElem_range, Nat.add_assoc]
  exact UInt8.toNat.inj byte

private theorem stored (laid : Laid items) (bottomUp : BottomUp [] (items.map pair))
    (small : (allBytes items).length < 2 ^ 32)
    (loaded : Loaded memory base (image items base)) (member : item ∈ items) :
    Stored memory (place items base) item.pair := by
  have stores := laid.stores bottomUp item member
  have size : item.contents.length = item.node.size := stores.size
  have here : place items base item.inode = base + item.record :=
    laid.place_item bottomUp small member base
  have inside := laid.inside item member
  have room := loaded.inside
  rw [laid.length_image] at room
  rw [stop] at inside
  have start : place items base item.inode - item.node.size = base + item.start := by
    rw [here, record, size, ← Nat.add_assoc]
    exact Nat.add_sub_cancel ..
  refine ⟨?_, ?_, ?_, fun mode bytes node => ?_, fun entries node index entry there => ?_⟩
  · change item.node.size ≤ place items base item.inode
    rw [here, record, size]
    omega
  · change place items base item.inode + 40 ≤ 2 ^ 32
    omega
  · change Kernel.FileInfo.load memory (place items base item.inode) =
      ⟨item.inode.toNat, item.node.mode.toNat, item.node.size,
        place items base item.inode - item.node.size⟩
    rw [start, here, laid.info_loaded small member loaded, size]
  · have node : item.node = .file mode bytes := node
    unfold Stores at stores
    rw [node] at stores
    have length : bytes.length = item.node.size := by rw [node, Node.size]
    have window := laid.window_loaded member loaded (by rw [node, Node.children])
    change memory.window (place items base item.inode - bytes.length) bytes.length = bytes
    rw [length, start, ← size, window, stores]
  · have node : item.node = .directory entries := node
    have unwritten := (List.getElem?_eq_some_iff.mp there).1
    have covers : entries.length * 256 = item.contents.length := by
      rw [size, node]
      rfl
    have fits : index * 256 + 256 ≤ item.contents.length := by omega
    have proper : (Node.directory entries).Proper :=
      node ▸ bottomUp.proper _ (List.mem_map_of_mem member)
    obtain ⟨_, free, short, _⟩ := proper entry (List.mem_of_getElem? there)
    have mine : entry.2 ∈ item.pair.2.children := by
      change entry.2 ∈ item.node.children
      rw [node]
      exact List.mem_map_of_mem (List.mem_of_getElem? there)
    have child := bottomUp.children _ (List.mem_map_of_mem member) entry.2 mine
    rw [List.map_map] at child
    obtain ⟨other, otherThere, named⟩ := List.mem_map.mp child
    have leads : place items base entry.2 = base + other.record :=
      named ▸ laid.place_item bottomUp small otherThere base
    have below := laid.inside other otherThere
    rw [stop] at below
    change memory.load (place items base item.inode - item.node.size + index * 256 + 252) =
      place items base entry.2 ∧
      memory.window (place items base item.inode - item.node.size + index * 256)
        (entry.1.length + 1) = terminated entry.1
    rw [start, record] at *
    constructor
    · have within : item.start + (index * 256 + 252) + 4 ≤ (image items base).length := by
        rw [laid.length_image]
        exact (Nat.add_le_add_left fits item.start).trans (by omega)
      have pointer := laid.info_image member base node stores there
      have word : wordAt (image items base) (item.start + (index * 256 + 252)) = .ofNat base +
        offsets items entry.2 := pointer
      rw [Nat.add_assoc, Nat.add_assoc, loaded.load within, word, UInt32.toNat_add,
        UInt32.toNat_ofNat']
      rw [place] at leads ⊢
      omega
    · obtain ⟨indeterminate, name⟩ := laid.name_image member base node stores there
      apply List.ext_getElem
      · rw [Memory.window_length, terminated, List.length_append, List.length_singleton]
      · intro position _ within
        have length : (terminated entry.1).length = entry.1.length + 1 := List.length_append
        have byte := name ⟨position, by omega⟩
        rw [strlcpy_terminated free short indeterminate position within (by omega)] at byte
        have read : (memory (base + (item.start + (index * 256 + position)))).toNat =
          (terminated entry.1)[position].toNat := by
          rw [loaded.byte (by rw [laid.length_image]; omega)]
          exact byte
        simp only [Memory.window, List.getElem_map, List.getElem_range, Nat.add_assoc]
        exact UInt8.toNat.inj read

private theorem length_allBytes (items : List Item) :
    (allBytes items).length = (items.map fun item => item.contents.length).sum + 40 *
      items.length := by
  induction items with
  | nil => rfl
  | cons item items ih =>
    have cons : allBytes (item :: items) = item.bytes ++ allBytes items := rfl
    rw [cons, List.length_append, length_bytes, ih, List.map_cons, List.sum_cons, List.length_cons]
    omega

private theorem record_sum (laid : Laid items) : ∀ index item, items[index]? = some item →
    item.record = ((items.take (index + 1)).map fun item => item.contents.length).sum +
      40 * index := by
  induction laid with
  | empty => exact fun _ _ there => by cases there
  | @add items last laid follows ih =>
    intro index item there
    obtain inside | outside := Nat.lt_or_ge index items.length
    · rw [List.getElem?_append_left inside] at there
      rw [List.take_append_of_le_length inside, ih index item there]
    · rw [List.getElem?_append_right outside] at there
      obtain ⟨single, rfl⟩ := List.getElem?_eq_some_iff.mp there
      rw [List.length_singleton] at single
      obtain rfl : index = items.length := by omega
      have start : last.start = (allBytes items).length := follows.start
      rw [List.take_of_length_le (by rw [List.length_append, List.length_singleton]), List.map_append, List.sum_append, record]
      simp only [Nat.sub_self, List.getElem_cons_zero, List.map_singleton, List.sum_singleton,
        start, length_allBytes]
      omega

end Laid

private theorem length_allSymbols (distinct : (items.map inode).Nodup) :
    (allSymbols items).length ≤ 2 * items.length + 3 := by
  have exact_ (items : List Item) : (items.flatMap symbols).length = 2 * items.length +
    (items.map inode).count 2 := by
    induction items with
    | nil => rfl
    | cons item items ih =>
      rw [List.flatMap_cons, List.length_append, ih, List.map_cons, List.count_cons,
        List.length_cons, symbols, fileSymbols, List.length_cons,
        List.length_cons]
      by_cases root : item.inode = 2
      · rw [if_pos root, if_pos (beq_iff_eq.mpr root), List.length_singleton]
        omega
      · rw [if_neg root, if_neg fun same => root (beq_iff_eq.mp same), List.length_nil]
        omega
  have once := List.nodup_iff_count_le_one.mp distinct 2
  rw [allSymbols, List.length_append, exact_, headSymbols, List.length_cons, List.length_singleton]
  omega

private theorem root_symbol (distinct : (items.map inode).Nodup) (member : item ∈ items)
    (root : item.inode = 2) (symbol : Sym) :
    (literal "__flash_root", symbol) ∈ allSymbols items ↔ symbol = objectSymbol item.record 40 4 := by
  have prefix_ {kind : List UInt8} (different : kind ≠ (literal "__flash_root").take kind.length) (more : List UInt8) :
      kind ++ more ≠ literal "__flash_root" := by
    intro same
    rw [← same, List.take_left] at different
    exact different rfl
  constructor
  · intro named
    obtain head | among := List.mem_append.mp named
    · obtain same | same := List.mem_pair.mp head
      · exact absurd (congrArg Prod.fst same) (by decide : literal "__flash_root" ≠ [])
      · exact absurd (congrArg Prod.fst same) (by decide : literal "__flash_root" ≠ literal "__flash_base")
    · obtain ⟨other, there, mine⟩ := List.mem_flatMap.mp among
      obtain same | behind := List.mem_cons.mp mine
      · exact absurd (congrArg Prod.fst same).symm (prefix_ (by decide) _)
      · obtain same | last := List.mem_cons.mp behind
        · exact absurd (congrArg Prod.fst same).symm (prefix_ (by decide) _)
        · split at last
          next two =>
            obtain rfl := List.inj_on_of_nodup_map distinct there member (two.trans root.symm)
            exact congrArg Prod.snd (List.mem_singleton.mp last)
          next => cases last
  · rintro rfl
    refine List.mem_append_right _ (List.mem_flatMap.mpr ⟨item, member,
      List.mem_cons_of_mem _ (List.mem_cons_of_mem _ ?_)⟩)
    rw [if_pos root]
    exact List.mem_singleton_self _

end Item

namespace FileSystem
variable {items : List Item} {item : Item} {indeterminate : Fin 16 → UInt8}

private theorem small_flashed (small : ((flashed items).object indeterminate).length < 2 ^ 32) :
    (flashed items).Small indeterminate :=
  ⟨small, (by decide : 7 < 2 ^ 16)⟩

private theorem entryCount_flashed (formed : (flashed items).Formed)
    (small : ((flashed items).object indeterminate).length < 2 ^ 32) :
    entryCount ((flashed items).object indeterminate) 3 = (Item.allSymbols items).length := by
  have spec : (flashed items).sections[3]? = some ⟨literal ".symtab", SHT_SYMTAB, 0, 2, 1, 4, 16⟩ := rfl
  have symtab : (3, Record.encodeAll (flashed items).symbolRecords) ∈
    (flashed items).completed.writes :=
    List.mem_append_left _ (List.mem_append_right _ (List.mem_singleton_self _))
  have bytes := Description.sectionBytes_object (small_flashed small) formed.toRecorded spec symtab
  have entsize := ((flashed_describes formed small).sections 3 _ spec).1.entsize
  rw [entryCount, bytes, entsize, Record.length_encodeAll, Description.length_symbolRecords]
  exact Nat.mul_div_cancel _ (by decide)

private theorem root_flashed (formed : (flashed items).Formed)
    (small : ((flashed items).object indeterminate).length < 2 ^ 32)
    (distinct : (items.map Item.inode).Nodup) (member : item ∈ items) (root : item.inode = 2)
    (inside : item.record < 2 ^ 32) (base : Nat) :
    ∃ index, symbolNamed ((flashed items).object indeterminate) 3 (literal "__flash_root") = some index ∧
      symbolAddress 4 base (symbolAt ((flashed items).object indeterminate) 3 index) = base +
        item.record := by
  have describes := flashed_describes formed small
  have count := entryCount_flashed formed small
  obtain ⟨first, there⟩ := List.mem_iff_getElem?.mp
    ((Item.root_symbol distinct member root _).mpr rfl)
  have some_ : (symbolNamed ((flashed items).object indeterminate) 3 (literal "__flash_root")).isSome := by
    rw [symbolNamed, count, List.find?_isSome]
    exact ⟨first, List.mem_range.mpr (List.getElem?_eq_some_iff.mp there).1,
      decide_eq_true (describes.symbols first _ _ there).2⟩
  obtain ⟨index, found⟩ := Option.isSome_iff_exists.mp some_
  have within := List.mem_of_find?_eq_some found
  have holds := List.find?_some found
  have named : symbolName ((flashed items).object indeterminate) 3 index = some (literal "__flash_root") := of_decide_eq_true holds
  rw [count, List.mem_range] at within
  obtain ⟨⟨name, symbol⟩, here⟩ : ∃ pair, (Item.allSymbols items)[index]? = some pair :=
    ⟨_, List.getElem?_eq_getElem within⟩
  rw [(describes.symbols index name symbol here).2] at named
  obtain rfl := Option.some.inj named
  obtain rfl := (Item.root_symbol distinct member root symbol).mp (List.mem_of_getElem? here)
  exact ⟨index, found, describes.symbol_flashed here inside base⟩

end FileSystem

private theorem node_sorted {call : FileCall} {entries : List (List UInt8 × UInt32)}
    (node : call.node = .directory entries) :
    (entries.map Prod.fst).Nodup := by
  have sorted (files : Files) : (files.entries.map Prod.fst).Nodup := by
    refine List.pairwise_map.mpr (files.sorted.imp fun {first last} less same => ?_)
    rw [same] at less
    exact List.lt_irrefl _ less
  cases call with
  | addFile stream mode inodeNumber => cases node
  | addHostFile contents mode => cases node
  | addDirectory files inodeNumber => exact Node.directory.inj node ▸ sorted files
  | addRootDirectory files => exact Node.directory.inj node ▸ sorted files

theorem added_sorted {outcomes : List Outcome} {calls : List FileCall} {inode : UInt32}
    {entries : List (List UInt8 × UInt32)}
    (there : (inode, .directory entries) ∈ added outcomes calls) :
    (entries.map Prod.fst).Nodup := by
  obtain ⟨index, found⟩ := List.mem_iff_getElem?.mp there
  obtain ⟨outcome, call, _, _, same⟩ := List.getElem?_zipWith_eq_some.mp found
  exact node_sorted (congrArg Prod.snd same)

/-- The tree is found in the linked image if and only if the contents that are in front of each
record leave it at a multiple of a word. -/
theorem embedded_reconstructs {indeterminate : Fin 16 → UInt8} {calls : List FileCall}
    {outcomes : List Outcome} {object : List UInt8}
    (embedded : embed indeterminate calls = .ok (outcomes, object))
    (tree : Tree (added outcomes calls)) (small : object.length < 2 ^ 32)
    (few : calls.length < 2 ^ 23) (base : Nat) :
    ∃ flashRoot image, flashImage object base = some (flashRoot, image) ∧
    image.length ≤ object.length ∧
      ∀ memory, Loaded memory base image → (Reconstructs memory flashRoot (added outcomes calls) ↔
        ∀ count < calls.length, 4 ∣ base + ((calls.take (count + 1)).map FileCall.dataSize).sum) := by
  obtain ⟨items, laid, names, sizes, formed, same⟩ := embed_ok embedded
  rw [same] at small ⊢
  have names : items.map Item.pair = added outcomes calls := names
  rw [← names] at tree ⊢
  have bottomUp := tree.bottomUp
  have distinct := bottomUp.distinct
  rw [List.map_map] at distinct
  have describes := FileSystem.flashed_describes formed small
  have count : items.length = calls.length := by
    have lengths := congrArg List.length sizes
    rwa [List.length_map, List.length_map] at lengths
  have part : (Item.allBytes items).length ≤ ((FileSystem.flashed items).object indeterminate).length := by
    have length := congrArg List.length describes.contents_flashed
    rw [sectionBytes, excerpt, List.length_take, List.length_drop] at length
    omega
  have smaller := Nat.lt_of_le_of_lt part small
  have symbols : (Item.allSymbols items).length ≤ 2 ^ 24 + 1 := by
    have bound := Item.length_allSymbols distinct
    omega
  obtain ⟨entries, root⟩ := tree.root
  obtain ⟨item, member, rootPair⟩ := List.mem_map.mp root
  have two : item.inode = 2 := congrArg Prod.fst rootPair
  have inside := laid.inside item member
  rw [Item.stop] at inside
  obtain ⟨index, found, address⟩ :=
    FileSystem.root_flashed formed small distinct member two (by omega) base
  obtain ⟨embed_, symtab, _⟩ := describes.sections_flashed
  refine ⟨base + item.record, Item.image items base, ?_, (laid.length_image base).trans_le part,
    fun memory loaded => ?_⟩
  · rw [flashImage, embed_, symtab]
    dsimp only [bind, Option.bind]
    rw [found]
    dsimp only
    rw [address, describes.linked_flashed laid smaller symbols base]
    rfl
  · have stored : ∀ file ∈ items.map Item.pair, Stored memory (Item.place items base) file := by
      intro file there
      obtain ⟨other, otherThere, rfl⟩ := List.mem_map.mp there
      exact laid.stored bottomUp smaller loaded otherThere
    have place : Item.place items base 2 = base + item.record :=
      two ▸ laid.place_item bottomUp smaller member base
    have aligned {index : Nat} {other : Item} (there : items[index]? = some other) :
      4 ∣ Item.place items base other.inode ↔
        4 ∣ base + ((calls.take (index + 1)).map FileCall.dataSize).sum := by
      have place := laid.place_item bottomUp smaller (List.mem_of_getElem? there) base
      have record := laid.record_sum index other there
      have sum : ((calls.take (index + 1)).map FileCall.dataSize).sum =
        ((items.take (index + 1)).map fun item => item.contents.length).sum := by
        rw [List.map_take, List.map_take, sizes]
      rw [place, record, sum]
      omega
    rw [← place, reconstructs_iff tree stored fun inode entries there => added_sorted (names ▸ there)]
    constructor
    · intro all index less
      rw [← count] at less
      obtain ⟨other, there⟩ : ∃ other, items[index]? = some other :=
        ⟨_, List.getElem?_eq_getElem less⟩
      exact (aligned there).mp (all other.pair (List.mem_map_of_mem (List.mem_of_getElem? there)))
    · intro all file there
      obtain ⟨other, otherThere, rfl⟩ := List.mem_map.mp there
      obtain ⟨index, found⟩ := List.mem_iff_getElem?.mp otherThere
      obtain ⟨less, _⟩ := List.getElem?_eq_some_iff.mp found
      rw [count] at less
      exact (aligned found).mpr (all index less)

/-- The tool puts every tree into an object file. The kernel finds it in the linked image if and
only if the contents that are in front of each record leave it at a multiple of a word. -/
theorem flash_round_trip_iff (indeterminate : Fin 16 → UInt8) {calls : List FileCall}
    (mapped : ∀ call ∈ calls, call.Mapped) :
    ∃ outcomes object, embed indeterminate calls = .ok (outcomes, object) ∧
      (Tree (added outcomes calls) → object.length < 2 ^ 32 → calls.length < 2 ^ 23 → ∀ base,
        ∃ flashRoot image, flashImage object base = some (flashRoot, image) ∧
        ∀ memory, Loaded memory base image →
          (Reconstructs memory flashRoot (added outcomes calls) ↔
            ∀ count < calls.length, 4 ∣ base +
              ((calls.take (count + 1)).map FileCall.dataSize).sum)) := by
  obtain ⟨outcomes, object, embedded⟩ := embed_returns indeterminate mapped
  refine ⟨outcomes, object, embedded, fun tree small few base => ?_⟩
  obtain ⟨flashRoot, image, found, _, exact_⟩ := embedded_reconstructs embedded tree small few base
  exact ⟨flashRoot, image, found, exact_⟩

def flashMemory (base : Nat) (image : List UInt8) : Memory :=
  fun address => image.getD (address - base) 0

theorem loaded_flashMemory {base : Nat} {image : List UInt8}
    (inside : base + image.length ≤ 2 ^ 32) :
    Loaded (flashMemory base image) base image := by
  refine ⟨inside, ?_⟩
  unfold Memory.window
  refine List.ext_getElem (by rw [List.length_map, List.length_range]) fun index _ below => ?_
  rw [List.getElem_map, List.getElem_range, flashMemory, Nat.add_sub_cancel_left,
    List.getD_eq_getElem _ _ below]

def embedded? (calls : List FileCall) : Option (List Outcome) :=
  (embed (fun _ => 0) calls).toOption.bind fun result => if result.2.length < 2 ^ 16 then
    some result.1 else none

theorem embedded?_some {calls : List FileCall} {outcomes : List Outcome}
    (computed : embedded? calls = some outcomes) :
    ∃ object, embed (fun _ => 0) calls = .ok (outcomes, object) ∧ object.length < 2 ^ 16 := by
  obtain ⟨⟨_, object⟩, embedded, same⟩ := Option.bind_eq_some_iff.mp computed
  obtain ⟨small, same⟩ := Option.ite_none_right_eq_some.mp same
  obtain rfl := Option.some.inj same
  exact ⟨object, toOption_some.mp embedded, small⟩

open FileSystem (oneFile)

/-- A file of four bytes. -/
theorem flash_round_trip_iff_word :
    ∃ outcomes object flashRoot image, embed (fun _ => 0) (oneFile [1, 2, 3, 4]) =
      .ok (outcomes, object) ∧
    flashImage object 0x10000000 = some (flashRoot, image) ∧
    Loaded (flashMemory 0x10000000 image) 0x10000000 image ∧
    Reconstructs (flashMemory 0x10000000 image) flashRoot
      (added outcomes (oneFile [1, 2, 3, 4])) := by
  have computed : embedded? (oneFile [1, 2, 3, 4]) = some [⟨3, [4]⟩, ⟨2, [44, 300]⟩] := by
    decide +kernel
  obtain ⟨object, embedded, small⟩ := embedded?_some computed
  obtain ⟨outcomes, again, run, round⟩ :=
    flash_round_trip_iff (fun _ => 0) (by decide : ∀ call ∈ oneFile [1, 2, 3, 4], call.Mapped)
  obtain ⟨rfl, rfl⟩ := Prod.mk.inj (Except.ok.inj (embedded.symm.trans run))
  have tree : Tree (added [⟨3, [4]⟩, ⟨2, [44, 300]⟩] (oneFile [1, 2, 3, 4])) :=
    ⟨by decide +kernel, ⟨_, List.mem_cons_of_mem _ List.mem_cons_self⟩, by decide +kernel⟩
  obtain ⟨flashRoot, image, found, exact_⟩ := round tree (by omega) (by decide) 0x10000000
  obtain ⟨_, _, same, part, _⟩ :=
    embedded_reconstructs embedded tree (by omega) (by decide) 0x10000000
  obtain ⟨_, rfl⟩ := Prod.mk.inj (Option.some.inj (found.symm.trans same))
  have loaded : Loaded (flashMemory 0x10000000 image) 0x10000000 image :=
    loaded_flashMemory (by omega)
  exact ⟨_, object, flashRoot, image, embedded, found, loaded, (exact_ _ loaded).mpr (by decide)⟩

/-- A file of one byte, whose record is at an odd address. -/
theorem flash_round_trip_lost :
    ∃ outcomes object flashRoot image, embed (fun _ => 0) (oneFile [1]) = .ok (outcomes, object) ∧
    Tree (added outcomes (oneFile [1])) ∧ object.length < 2 ^ 32 ∧
    flashImage object 0x10000000 = some (flashRoot, image) ∧
    Loaded (flashMemory 0x10000000 image) 0x10000000 image ∧
    ¬Reconstructs (flashMemory 0x10000000 image) flashRoot (added outcomes (oneFile [1])) := by
  have computed : embedded? (oneFile [1]) = some [⟨3, [1]⟩, ⟨2, [41, 297]⟩] := by decide +kernel
  obtain ⟨object, embedded, small⟩ := embedded?_some computed
  have tree : Tree (added [⟨3, [1]⟩, ⟨2, [41, 297]⟩] (oneFile [1])) :=
    ⟨by decide +kernel, ⟨_, List.mem_cons_of_mem _ List.mem_cons_self⟩, by decide +kernel⟩
  obtain ⟨flashRoot, image, found, part, exact_⟩ :=
    embedded_reconstructs embedded tree (by omega) (by decide) 0x10000000
  have loaded : Loaded (flashMemory 0x10000000 image) 0x10000000 image :=
    loaded_flashMemory (by omega)
  refine ⟨_, object, flashRoot, image, embedded, tree, by omega, found, loaded, fun shown => ?_⟩
  have odd := (exact_ _ loaded).mp shown 0 (by decide)
  exact absurd odd (by decide)

end PicoOs.Tools
