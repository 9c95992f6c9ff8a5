import PicoOs.Proofs.FlashLayouts
import PicoOs.Proofs.FlashTrees

/-! What the linker makes of the section `.embed`. Only the pointers are changed: that of a record
leads to the contents of its file, and that of an entry to the record of the file it names. -/

namespace PicoOs.Tools
open Library Elf
open Kernel (literal ModeFlags)

namespace Item
variable {items : List Item} {item : Item}

def allBytes (items : List Item) : List UInt8 := items.flatMap bytes
def allSymbols (items : List Item) : List (List UInt8 × Sym) := headSymbols ++ items.flatMap symbols

theorem length_bytes (item : Item) : item.bytes.length = item.contents.length + 40 :=
  FileSystem.length_fileBytes _ _ _

theorem allBytes_add (items : List Item) (item : Item) :
    allBytes (items ++ [item]) = allBytes items ++ item.bytes := by
  rw [allBytes, List.flatMap_append, List.flatMap_singleton, allBytes]

private theorem allSymbols_add (items : List Item) (item : Item) :
    allSymbols (items ++ [item]) = allSymbols items ++ item.symbols := by
  rw [allSymbols, List.flatMap_append, List.flatMap_singleton, allSymbols, List.append_assoc]

theorem offsets_add (items : List Item) (item : Item) :
    offsets (items ++ [item]) = Function.update (offsets items) item.inode
      (.ofNat item.record) := by
  rw [offsets, List.foldl_append, ← offsets]
  rfl

namespace Follows

private theorem stop (follows : item.Follows items) :
    item.stop = (allBytes (items ++ [item])).length := by
  have start : item.start = (allBytes items).length := follows.start
  rw [allBytes_add, List.length_append, length_bytes, ← start, Item.stop,
    Item.record, Nat.add_assoc]

end Follows

namespace Laid

theorem inside (laid : Laid items) : ∀ item ∈ items, item.stop ≤ (allBytes items).length := by
  induction laid with
  | empty => exact nofun
  | @add items last laid follows ih =>
    rw [List.forall_mem_append, List.forall_mem_singleton]
    refine ⟨fun item member => (ih item member).trans ?_, follows.stop.le⟩
    rw [allBytes_add, List.length_append]
    exact Nat.le_add_right _ _

theorem apart (laid : Laid items) : items.Pairwise fun first last => first.stop ≤ last.start := by
  induction laid with
  | empty => exact List.Pairwise.nil
  | @add items last laid follows ih =>
    refine List.pairwise_append.mpr ⟨ih, List.pairwise_singleton _ _,
      fun first member other same => ?_⟩
    obtain rfl := List.mem_singleton.mp same
    exact (laid.inside first member).trans follows.start.ge

theorem separate (laid : Laid items) {other : Item} (member : item ∈ items) (there : other ∈ items)
    (different : item ≠ other) :
    item.stop ≤ other.start ∨ other.stop ≤ item.start := by
  have symmetric : Std.Symm fun first last : Item =>
    first.stop ≤ last.start ∨ last.stop ≤ first.start := ⟨fun _ _ => Or.symm⟩
  have either : items.Pairwise fun first last =>
    first.stop ≤ last.start ∨ last.stop ≤ first.start := laid.apart.imp Or.inl
  exact either.forall member there different

theorem excerpt_bytes (laid : Laid items) :
    ∀ item ∈ items, excerpt (allBytes items) item.start item.bytes.length = item.bytes := by
  induction laid with
  | empty => exact nofun
  | @add items last laid follows ih =>
    rw [List.forall_mem_append, List.forall_mem_singleton]
    constructor
    · intro item member
      have inside := laid.inside item member
      rw [stop, record, Nat.add_assoc, ← length_bytes] at inside
      rw [allBytes_add, excerpt_append_left _ _ inside, ih item member]
    · have start : last.start = (allBytes items).length + 0 := follows.start
      rw [allBytes_add, start, excerpt_append_right, excerpt, List.drop_zero, List.take_length]

/-- The symbol of the contents of a file, which is not the last one of the file. -/
theorem symbol (laid : Laid items) :
    ∀ item ∈ items, item.symbol + 2 ≤ (allSymbols items).length ∧ ∃ name,
    (allSymbols items)[item.symbol]? = some (name,
      objectSymbol item.start item.contents.length 4) := by
  induction laid with
  | empty => exact nofun
  | @add items last laid follows ih =>
    rw [List.forall_mem_append, List.forall_mem_singleton, allSymbols_add, List.length_append]
    constructor
    · intro item member
      obtain ⟨inside, name, there⟩ := ih item member
      exact ⟨Nat.le_add_right_of_le inside, name,
        by rw [List.getElem?_append_left (by omega), there]⟩
    · have symbol : last.symbol = (allSymbols items).length := follows.symbol
      refine ⟨?_, literal "__flash_data_" ++ decimal last.inode, ?_⟩
      · rw [symbol, symbols, fileSymbols, List.length_cons, List.length_cons]
        omega
      · rw [symbol, List.getElem?_append_right (Nat.le_refl _), Nat.sub_self]
        rfl

/-- What a number leads to stays, as long as it is not used again. -/
theorem offsets_item (laid : Laid items) (distinct : (items.map inode).Nodup) :
    ∀ item ∈ items, offsets items item.inode = .ofNat item.record := by
  induction laid with
  | empty => exact nofun
  | @add items last laid follows ih =>
    rw [List.map_append, List.nodup_append] at distinct
    obtain ⟨before, _, new⟩ := distinct
    rw [List.forall_mem_append, List.forall_mem_singleton, offsets_add]
    refine ⟨fun item member => ?_, Function.update_self ..⟩
    rw [Function.update_of_ne (new item.inode (List.mem_map_of_mem member) last.inode (List.mem_singleton_self _)), ih before item member]

end Laid

private theorem Stores.congr {first last : UInt32 → UInt32} (stores : item.Stores first)
    (same : ∀ child ∈ item.node.children, last child = first child) :
    item.Stores last := by
  unfold Stores at stores ⊢
  cases node : item.node with
  | file mode bytes =>
    rw [node] at stores
    exact stores
  | directory entries =>
    rw [node] at stores same
    obtain ⟨indeterminate, contents⟩ := stores
    refine ⟨indeterminate, contents.trans (congrArg _ (List.map_congr_left fun entry member => ?_))⟩
    rw [same entry.2 (List.mem_map_of_mem member)]

end Item

namespace Item
variable {items : List Item}

def pair (item : Item) : UInt32 × Node := (item.inode, item.node)

/-- The records of the entries name what the numbers lead to in the end. -/
theorem Laid.stores (laid : Laid items) (bottomUp : BottomUp [] (items.map pair)) :
    ∀ item ∈ items, item.Stores (offsets items) := by
  induction laid with
  | empty => exact nofun
  | @add items last laid follows ih =>
    rw [List.map_append, List.map_singleton] at bottomUp
    obtain ⟨before, new, _, there⟩ := bottomUp_concat.mp bottomUp
    have kept : ∀ child ∈ (items.map pair).map Prod.fst, offsets (items ++ [last]) child =
      offsets items child := by
      intro child member
      have other : child ≠ last.inode := by
        rintro rfl
        exact new member
      rw [offsets_add, Function.update_of_ne other]
    rw [List.forall_mem_append, List.forall_mem_singleton]
    constructor
    · intro item member
      have inside := before.children item.pair (List.mem_map_of_mem member)
      exact (ih before item member).congr fun child mine => kept child (inside child mine)
    · exact follows.stores.congr fun child inside => kept child (there child inside)

def patches (base : Nat) (item : Item) : List (Nat × UInt32) :=
  (item.record + FileInfo.dataOffset, .ofNat (base + item.start)) ::
    (FileSystem.entryOffsets 0 item.node.children.length).map fun offset =>
      (item.start + (offset + FlashDirectoryInfo.infoRawOffset), .ofNat base)

end Item

private theorem decimal_free (number : UInt32) : 0 ∉ decimal number := by
  intro zero
  obtain ⟨digit, member, same⟩ := List.mem_map.mp zero
  have digits : digit ∈ Nat.toDigits 10 number.toNat := by
    rwa [Nat.toString_eq_ofList_toDigits, String.toList_ofList] at member
  have bounds := Char.isDigit_iff_toNat.mp (Nat.isDigit_of_mem_toDigits (by decide) (by decide) digits)
  have value := congrArg UInt8.toNat same
  rw [UInt8.toNat_ofNat'] at value
  have zero : '0'.toNat = 48 := rfl
  have nine : '9'.toNat = 57 := rfl
  have none : (0 : UInt8).toNat = 0 := rfl
  omega

private theorem fileSymbols_free (inode : UInt32) (start size : Nat) :
    ∀ symbol ∈ fileSymbols inode start size, 0 ∉ symbol.1 := by
  have named {kind : List UInt8} (plain : 0 ∉ kind) : 0 ∉ kind ++ decimal inode :=
    fun zero => (List.mem_append.mp zero).elim plain (decimal_free inode)
  refine List.forall_mem_cons.mpr ⟨named (by decide), List.forall_mem_cons.mpr ⟨named (by decide), fun symbol member => ?_⟩⟩
  split at member
  next =>
    obtain rfl := List.mem_singleton.mp member
    exact (by decide : 0 ∉ literal "__flash_root")
  next => cases member

namespace FileSystem
variable {items : List Item} {indeterminate : Fin 16 → UInt8}

private theorem flashed_free (items : List Item) : (flashed items).Free where
  sections := by
    have sections : ∀ spec ∈ flashSections, 0 ∉ spec.name := by decide
    exact sections
  symbols := by
    refine List.forall_mem_append.mpr ⟨by decide, fun symbol member => ?_⟩
    obtain ⟨item, _, mine⟩ := List.mem_flatMap.mp member
    exact fileSymbols_free _ _ _ symbol mine

theorem flashed_describes (formed : (flashed items).Formed)
    (small : ((flashed items).object indeterminate).length < 2 ^ 32) :
    Describes ((flashed items).object indeterminate) (flashed items) := by
  have sections : (flashed items).sections.length < 2 ^ 16 := (by decide : 7 < 2 ^ 16)
  refine Description.object_describes ⟨small, sections⟩ formed (fun table member => ?_)
    (flashed_free items)
  obtain rfl := List.mem_singleton.mp member
  rfl

end FileSystem

namespace Describes
variable {file : List UInt8} {items : List Item}

/-- The sections that a linker looks for. -/
theorem sections_flashed (describes : Describes file (FileSystem.flashed items)) :
    sectionNamed file (literal ".embed") = some 4 ∧ symbolsOf file = some 3 ∧ relocationsOf file 4 = [5] := by
  have count : sectionCount file = 7 := describes.counted
  have there {index : Nat} (inside : index < 7) : flashSections[index]? =
    some (flashSections.get ⟨index, inside⟩) := List.getElem?_eq_getElem inside
  have name : ∀ index < 7, sectionName file index = flashSections[index]?.map SectionSpec.name := by
    intro index inside
    rw [(describes.sections index _ (there inside)).2, there inside]
    rfl
  have type : ∀ index < 7, (sectionHeader file index).type =
    (flashSections[index]?.map SectionSpec.type).getD 0 := by
    intro index inside
    rw [(describes.sections index _ (there inside)).1.type, there inside]
    rfl
  have info : ∀ index < 7, (sectionHeader file index).info =
    (flashSections[index]?.map SectionSpec.info).getD 0 := by
    intro index inside
    rw [(describes.sections index _ (there inside)).1.info, there inside]
    rfl
  refine ⟨?_, ?_, ?_⟩
  · rw [sectionNamed, count, List.find?_range_eq_some]
    refine ⟨decide_eq_true (name 4 (by decide)), by decide, fun index before => ?_⟩
    rw [name index (before.trans (by decide))]
    revert index
    decide
  · rw [symbolsOf, count, List.find?_range_eq_some]
    refine ⟨decide_eq_true (type 3 (by decide)), by decide, fun index before => ?_⟩
    rw [type index (before.trans (by decide))]
    revert index
    decide
  · have closed : (List.range 7).filter (fun index => (flashSections[index]?.map SectionSpec.type).getD 0 = relocationTable ∧
        ((flashSections[index]?.map SectionSpec.info).getD 0).toNat = 4) = [5] := by decide
    rw [relocationsOf, count, ← closed]
    refine List.filter_congr fun index member => ?_
    have inside := List.mem_range.mp member
    rw [type index inside, info index inside]

theorem contents_flashed (describes : Describes file (FileSystem.flashed items)) :
    sectionBytes file 4 = Item.allBytes items :=
  describes.written 4 _ (List.mem_cons_of_mem _ (List.mem_cons_of_mem _ (List.mem_singleton_self _)))

private theorem entries_flashed (describes : Describes file (FileSystem.flashed items)) :
    (List.range (entryCount file 5)).map (entryOf file 5) = items.flatMap Item.rels := by
  have written : sectionBytes file 5 = Record.encodeAll (items.flatMap Item.rels) :=
    describes.written 5 _ List.mem_cons_self
  have spec : (FileSystem.flashed items).sections[5]? =
      some (Description.relocationSpec (literal ".rel") (literal ".embed") SHT_REL 8 3 4) := rfl
  have entsize := (describes.sections 5 _ spec).1.entsize
  have count : entryCount file 5 = (items.flatMap Item.rels).length := by
    rw [entryCount, written, Record.length_encodeAll, entsize]
    exact Nat.mul_div_cancel _ (by decide)
  rw [count]
  apply List.ext_getElem?
  intro index
  rw [List.getElem?_map]
  by_cases inside : index < (items.flatMap Item.rels).length
  · have there : (items.flatMap Item.rels)[index]? = some (items.flatMap Item.rels)[index] :=
      List.getElem?_eq_getElem inside
    have entry : entryOf file 5 index = (items.flatMap Item.rels)[index] :=
      describes.rels _ (List.mem_singleton_self _) index _ there
    rw [List.getElem?_range inside, there, Option.map_some, entry]
  · rw [List.getElem?_eq_none (by rw [List.length_range]; omega), List.getElem?_eq_none (by omega)]
    rfl

/-- A symbol of the object file. -/
theorem symbol_flashed (describes : Describes file (FileSystem.flashed items)) {index : Nat}
    {name : List UInt8} {value size : Nat}
    (there : (Item.allSymbols items)[index]? = some (name, objectSymbol value size 4))
    (small : value < 2 ^ 32) (base : Nat) :
    symbolAddress 4 base (symbolAt file 3 index) = base + value := by
  have symbol := (describes.symbols index name _ there).1
  have section_ : (symbolAt file 3 index).shndx = 4 := congrArg Sym.shndx symbol
  have valued : (symbolAt file 3 index).value = .ofNat value := congrArg Sym.value symbol
  rw [symbolAddress, section_, if_pos (by decide), valued, UInt32.toNat_ofNat_of_lt' small]

end Describes

private theorem relocationInfo_symbol {symbol : Nat} (few : symbol < 2 ^ 24) :
    symbolOf (relocationInfo symbol) = symbol := by
  rw [symbolOf, relocationInfo, UInt32.toNat_ofNat_of_lt' (by rw [UInt32.size]; omega)]
  omega

private theorem relocationInfo_type (symbol : Nat) : typeOf (relocationInfo symbol) = absolute := by
  rw [typeOf, relocationInfo, UInt32.toNat_ofNat', absolute]
  omega

namespace Item
variable {items : List Item} {item : Item} {offsets : UInt32 → UInt32} {base : Nat}

/-- The records of the entries fit into the contents. -/
theorem Stores.covers (stores : item.Stores offsets) :
    item.node.children.length * FileSystem.infoSize ≤ item.contents.length := by
  unfold Stores at stores
  cases node : item.node with
  | file mode bytes => exact (Nat.zero_mul _).trans_le (Nat.zero_le _)
  | directory entries =>
    rw [node] at stores
    obtain ⟨indeterminate, contents⟩ := stores
    rw [contents, Record.length_encodeAll, List.length_map, Node.children, List.length_map]
    exact Nat.le_refl _

/-- The patches of a file are inside of it, and do not overlap. -/
theorem Stores.patches_inside (stores : item.Stores offsets) :
    ∀ patch ∈ item.patches base, item.start ≤ patch.1 ∧ patch.1 + 4 ≤ item.stop := by
  have covers := stores.covers
  refine List.forall_mem_cons.mpr ⟨?_, fun patch member => ?_⟩
  · simp only [record, stop, FileInfo.dataOffset]
    omega
  · obtain ⟨_, offset, rfl⟩ := List.mem_map.mp member
    obtain ⟨index, inside, rfl⟩ := FileSystem.mem_entryOffsets.mp offset
    simp only [record, stop, FileSystem.infoSize, FlashDirectoryInfo.infoRawOffset] at covers ⊢
    omega

private theorem Stores.patches_apart (stores : item.Stores offsets) :
    (item.patches base).Pairwise fun first last => WordsApart first.1 last.1 := by
  have covers := stores.covers
  refine List.pairwise_cons.mpr ⟨fun patch member => ?_, List.pairwise_map.mpr ?_⟩
  · obtain ⟨_, offset, rfl⟩ := List.mem_map.mp member
    obtain ⟨index, inside, rfl⟩ := FileSystem.mem_entryOffsets.mp offset
    simp only [WordsApart, record, FileInfo.dataOffset, FileSystem.infoSize,
      FlashDirectoryInfo.infoRawOffset] at covers ⊢
    omega
  · rw [FileSystem.entryOffsets, List.pairwise_map]
    refine List.pairwise_lt_range.imp fun {first last} less => ?_
    simp only [WordsApart, FileSystem.infoSize]
    omega

theorem Laid.follows_stores (laid : Laid items) :
    ∀ item ∈ items, ∃ offsets, item.Stores offsets := by
  induction laid with
  | empty => exact nofun
  | @add items last laid follows ih =>
    rw [List.forall_mem_append, List.forall_mem_singleton]
    exact ⟨ih, _, follows.stores⟩

theorem Laid.patches_inside (laid : Laid items) (base : Nat) :
    ∀ patch ∈ items.flatMap (patches base), patch.1 + 4 ≤ (allBytes items).length := by
  intro patch member
  obtain ⟨item, there, mine⟩ := List.mem_flatMap.mp member
  obtain ⟨_, stores⟩ := laid.follows_stores item there
  exact (stores.patches_inside patch mine).2.trans (laid.inside item there)

theorem Laid.patches_apart (laid : Laid items) (base : Nat) :
    (items.flatMap (patches base)).Pairwise fun first last => WordsApart first.1 last.1 := by
  refine List.pairwise_flatMap.mpr ⟨fun item there => ?_, ?_⟩
  · obtain ⟨_, stores⟩ := laid.follows_stores item there
    exact stores.patches_apart
  · refine laid.apart.imp_of_mem fun {first last} memberFirst memberLast before patch mine other
      yours => .inl ?_
    obtain ⟨_, storesFirst⟩ := laid.follows_stores first memberFirst
    obtain ⟨_, storesLast⟩ := laid.follows_stores last memberLast
    exact (storesFirst.patches_inside patch mine).2.trans
      (before.trans (storesLast.patches_inside other yours).1)

end Item

/-- The linked section is what was written, with the pointers patched. -/
theorem Describes.linked_flashed {file : List UInt8} {items : List Item}
    (describes : Describes file (FileSystem.flashed items))
    (laid : Item.Laid items) (small : (Item.allBytes items).length < 2 ^ 32)
    (few : (Item.allSymbols items).length ≤ 2 ^ 24 + 1) (base : Nat) :
    linkedSection file 4 base = (items.flatMap (Item.patches base)).foldl addWord
      (Item.allBytes items) := by
  have spec : (FileSystem.flashed items).sections[5]? =
      some (Description.relocationSpec (literal ".rel") (literal ".embed") SHT_REL 8 3 4) := rfl
  have link : (sectionHeader file 5).link.toNat = 3 :=
    congrArg UInt32.toNat (describes.sections 5 _ spec).1.link
  have absolute_ : ∀ relocation ∈ items.flatMap Item.rels, typeOf relocation.info = absolute := by
    intro relocation member
    obtain ⟨item, _, mine⟩ := List.mem_flatMap.mp member
    obtain rfl | entry := List.mem_cons.mp mine
    · exact relocationInfo_type _
    · obtain ⟨_, _, rfl⟩ := List.mem_map.mp entry
      exact relocationInfo_type _
  have patch : ∀ item ∈ items, item.rels.map (fun relocation => (relocation.offset.toNat,
      UInt32.ofNat (symbolAddress 4 base (symbolAt file 3 (symbolOf relocation.info))))) =
        item.patches base := by
    intro item member
    obtain ⟨_, stores⟩ := laid.follows_stores item member
    have covers := stores.covers
    have inside := laid.inside item member
    obtain ⟨symbol, name, there⟩ := laid.symbol item member
    simp only [Item.stop, Item.record] at inside
    rw [Item.rels, Item.patches, List.map_cons, List.map_map]
    refine congrArg₂ List.cons ?_ (List.map_congr_left fun offset among => ?_)
    · have record : (fileRelocation item.record item.symbol).offset.toNat = item.record +
        FileInfo.dataOffset := by
        simp only [fileRelocation, FileInfo.dataOffset, Item.record, UInt32.toNat_add,
          UInt32.toNat_ofNat']
        omega
      have info : symbolOf (fileRelocation item.record item.symbol).info = item.symbol :=
        relocationInfo_symbol (by omega)
      rw [record, info, describes.symbol_flashed there (by omega)]
    · obtain ⟨index, less, rfl⟩ := FileSystem.mem_entryOffsets.mp among
      have place : (entryRelocation item.start (0 + index * FileSystem.infoSize)).offset.toNat =
          item.start + (0 + index * FileSystem.infoSize + FlashDirectoryInfo.infoRawOffset) := by
        simp only [FileSystem.infoSize] at covers
        simp only [entryRelocation, FlashDirectoryInfo.infoRawOffset, FileSystem.infoSize,
          UInt32.toNat_add, UInt32.toNat_ofNat']
        omega
      have info : symbolOf (entryRelocation item.start (0 + index * FileSystem.infoSize)).info =
        1 := relocationInfo_symbol (by decide)
      have base_ : (Item.allSymbols items)[1]? = some (literal "__flash_base", objectSymbol 0 0 4) := rfl
      rw [Function.comp_apply, place, info,
        describes.symbol_flashed base_ (by decide), Nat.add_zero]
  rw [linkedSection, describes.sections_flashed.2.2, List.foldl_cons, List.foldl_nil,
    describes.contents_flashed, relocateAll,
    describes.entries_flashed, ← List.flatMap_congr patch, ← List.map_flatMap, List.foldl_map]
  refine List.foldl_ext _ _ _ fun bytes relocation member => ?_
  rw [relocate, if_pos (absolute_ relocation member), link]

end PicoOs.Tools
