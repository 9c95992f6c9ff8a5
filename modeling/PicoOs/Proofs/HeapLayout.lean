import PicoOs.Std.MemoryAllocator
import PicoOs.Library.LinkedList
import PicoOs.Library.Tiling

/-! The heap as an ordered list of regions, and what it means that the memory of
the allocator lays it out: every region starts with its header, the regions tile
the heap, and the free list links exactly the free ones in address order. -/

namespace PicoOs.Std
open Library

/-- A header at `address` followed by `size` payload bytes. -/
structure Region where
  address : Nat
  size : Nat
  live : Bool
  deriving DecidableEq

namespace Region

def extent (region : Region) : Nat := sizeofNode + region.size

def stop (region : Region) : Nat := region.address + region.extent

end Region

abbrev Regions.Tile : Nat → List Region → Nat → Prop := Tiles Region.address Region.extent

def freeNodes (regions : List Region) : List Nat :=
  (regions.filter (fun region => !region.live)).map Region.address

theorem mem_freeNodes {regions : List Region} {address : Nat} :
    address ∈ freeNodes regions ↔
    ∃ region ∈ regions, region.live = false ∧ region.address = address := by
  simp [freeNodes, and_assoc]

theorem freeNodes_append (left right : List Region) :
    freeNodes (left ++ right) = freeNodes left ++ freeNodes right := by simp [freeNodes]

theorem freeNodes_free {region : Region} (free : region.live = false) (rest : List Region) :
    freeNodes (region :: rest) = region.address :: freeNodes rest := by simp [freeNodes, free]

theorem freeNodes_live {region : Region} (live : region.live = true) (rest : List Region) :
    freeNodes (region :: rest) = freeNodes rest := by simp [freeNodes, live]

def liveNodes (regions : List Region) : List Nat := (regions.filter Region.live).map Region.address

theorem mem_liveNodes {regions : List Region} {address : Nat} :
    address ∈ liveNodes regions ↔
    ∃ region ∈ regions, region.live = true ∧ region.address = address := by
  simp [liveNodes, and_assoc]

/-- The free nodes before a free node belong to the regions before its region. -/
theorem freeNodes_split {regions : List Region} {skipped rest : List Nat} {node : Nat}
    (shape : freeNodes regions = skipped ++ node :: rest) :
    ∃ left region right, regions = left ++ region :: right ∧ freeNodes left = skipped ∧
    region.live = false ∧
      region.address = node := by
  induction regions generalizing skipped with
  | nil => simp [freeNodes] at shape
  | cons first regions ih =>
    cases status : first.live with
    | true =>
      rw [freeNodes_live status] at shape
      obtain ⟨left, region, right, rfl, before, free, same⟩ := ih shape
      exact ⟨first :: left, region, right, rfl,
        (freeNodes_live status left).trans before, free, same⟩
    | false =>
      rw [freeNodes_free status] at shape
      cases skipped with
      | nil => exact ⟨[], first, regions, rfl, rfl, status, (List.cons.inj shape).1⟩
      | cons head skipped =>
        obtain ⟨rfl, remaining⟩ := List.cons.inj shape
        obtain ⟨left, region, right, rfl, before, free, same⟩ := ih remaining
        exact ⟨first :: left, region, right, rfl, by rw [freeNodes_free status, before], free, same⟩

/-- A span of memory that can serve as a heap. Like every object of the program
it lies in the address space and not at the null address. -/
structure HeapSpan (span : Bytes) : Prop where
  nonnull : 0 < span.data
  aligned : span.data % 4 = 0
  words : span.size % 4 = 0
  header : sizeofNode ≤ span.size
  fits : span.data + span.size ≤ 2 ^ 32

/-- The topmost region is free: this is what keeps a free node above every live block. -/
def TopFree (regions : List Region) : Prop := regions.getLast?.map Region.live = some false

theorem topFree_cons {left right : List Region} {region : Region} :
    TopFree (left ++ region :: right) ↔ (right.getLastD region).live = false := by
  simp [TopFree, List.getLast?_cons]

/-- Whether the top is free does not depend on what lies below another region. -/
theorem topFree_append {left right : List Region} (nonempty : right ≠ []) :
    TopFree (left ++ right) ↔ TopFree right := by
  obtain ⟨region, rest, rfl⟩ := List.exists_cons_of_ne_nil nonempty
  have bare := @topFree_cons [] rest region
  exact topFree_cons.trans bare.symm

theorem TopFree.swap {left old middle right : List Region} (top : TopFree (left ++ old ++ right))
    (free : TopFree middle) : TopFree (left ++ middle ++ right) := by
  rcases eq_or_ne right [] with rfl | nonempty
  · have present : middle ≠ [] := by rintro rfl; cases free
    rwa [List.append_nil, topFree_append present]
  · exact (topFree_append nonempty).mpr ((topFree_append nonempty).mp top)

structure Layout (span : Bytes) (heap : MemoryAllocator) (regions : List Region) : Prop where
  within : heap.heap = span
  tiles : Regions.Tile span.data regions (span.data + span.size)
  words : ∀ region ∈ regions, region.address % 4 = 0 ∧ region.size % 4 = 0
  sizes : ∀ region ∈ regions, heap.nodeSize region.address = region.size
  links : Segment heap.nodeNext heap.freelist (freeNodes regions) 0
  top : TopFree regions

namespace MemoryAllocator

section
variable (heap : MemoryAllocator) {entry other value : Nat}

theorem nodeNext_lt : heap.nodeNext entry < 2 ^ 32 := Memory.load_lt _ _

theorem nodeSize_setSize : (heap.setSize entry value).nodeSize entry = value % 2 ^ 32 :=
  Memory.load_store_same _ _ _

theorem nodeNext_setNext : (heap.setNext entry value).nodeNext entry = value % 2 ^ 32 :=
  Memory.load_store_same _ _ _

def Apart (entry other : Nat) : Prop := other + sizeofNode ≤ entry ∨ entry + sizeofNode ≤ other

theorem Apart.symm (apart : Apart entry other) : Apart other entry := Or.symm apart

def Spaced (entry other : Nat) : Prop := entry = other ∨ Apart entry other

theorem nodeSize_setSize_apart (apart : Apart entry other) :
    (heap.setSize entry value).nodeSize other = heap.nodeSize other :=
  Memory.load_store_other _ (by unfold Apart sizeofNode at apart; omega)

theorem nodeNext_setNext_apart (apart : Apart entry other) :
    (heap.setNext entry value).nodeNext other = heap.nodeNext other :=
  Memory.load_store_other _ (by unfold Apart sizeofNode at apart; omega)

theorem nodeNext_setSize_spaced (spaced : Spaced entry other) :
    (heap.setSize entry value).nodeNext other = heap.nodeNext other :=
  Memory.load_store_other _ (by unfold Spaced Apart sizeofNode at spaced; omega)

theorem nodeSize_setNext_spaced (spaced : Spaced entry other) :
    (heap.setNext entry value).nodeSize other = heap.nodeSize other :=
  Memory.load_store_other _ (by unfold Spaced Apart sizeofNode at spaced; omega)

theorem nodeSize_link (spaced : entry = 0 ∨ Spaced entry other) :
    (heap.link entry value).nodeSize other = heap.nodeSize other := by
  unfold link
  split
  · exact nodeSize_setNext_spaced heap (spaced.resolve_left ‹_›)
  · rfl

theorem nodeNext_link_apart (apart : entry = 0 ∨ Apart entry other) :
    (heap.link entry value).nodeNext other = heap.nodeNext other := by
  unfold link
  split
  · exact nodeNext_setNext_apart heap (apart.resolve_left ‹_›)
  · rfl

theorem nodeNext_link (nonnull : entry ≠ 0) :
    (heap.link entry value).nodeNext entry = value % 2 ^ 32 := by
  rw [link, if_pos nonnull, nodeNext_setNext]

theorem setSize_agree {start stop : Nat} (apart : stop ≤ entry ∨ entry + sizeofNode ≤ start) :
    Memory.Agree heap.memory (heap.setSize entry value).memory start stop :=
  Memory.store_agree _ (by unfold sizeofNode at apart; omega)

theorem setNext_agree {start stop : Nat} (apart : stop ≤ entry ∨ entry + sizeofNode ≤ start) :
    Memory.Agree heap.memory (heap.setNext entry value).memory start stop :=
  Memory.store_agree _ (by unfold sizeofNode at apart; omega)

end
end MemoryAllocator

namespace Layout
open MemoryAllocator
variable {span : Bytes} {heap : MemoryAllocator} {regions left right : List Region}
  {region other : Region}

theorem bounds (layout : Layout span heap regions) (member : region ∈ regions) :
    span.data ≤ region.address ∧
    region.address + sizeofNode + region.size ≤ span.data + span.size := by
  have inside := layout.tiles.bounds region member
  unfold Region.extent at inside
  omega

/-- Two regions are the same, or one ends before the other starts. -/
theorem disjoint (layout : Layout span heap regions) (first : region ∈ regions)
    (second : other ∈ regions) :
    region = other ∨ region.address + sizeofNode + region.size ≤ other.address ∨
      other.address + sizeofNode + other.size ≤ region.address := by
  let separate : Region → Region → Prop := fun region other =>
    region = other ∨ region.address + sizeofNode + region.size ≤ other.address ∨
      other.address + sizeofNode + other.size ≤ region.address
  have forward : regions.Pairwise separate := layout.tiles.ordered.imp fun before => by
    unfold Region.extent at before
    exact .inr (.inl (by omega))
  have backward : regions.Pairwise (flip separate) := layout.tiles.ordered.imp fun before => by
    unfold Region.extent at before
    exact .inr (.inr (by omega))
  exact forward.forall_of_forall_of_flip (fun _ _ => .inl rfl) backward first second

/-- The headers of two regions are the same or apart. -/
theorem spaced (layout : Layout span heap regions) (first : region ∈ regions)
    (second : other ∈ regions) :
    Spaced region.address other.address := by
  rcases layout.disjoint first second with rfl | before | after
  · exact .inl rfl
  · exact .inr (.inr (by omega))
  · exact .inr (.inl (by omega))

theorem below (layout : Layout span heap (left ++ region :: right)) (member : other ∈ left) :
    other.address + sizeofNode + other.size ≤ region.address := by
  have order := (List.pairwise_append.mp layout.tiles.ordered).2.2 other member region (by simp)
  unfold Region.extent at order
  omega

theorem above (layout : Layout span heap (left ++ region :: right)) (member : other ∈ right) :
    region.address + sizeofNode + region.size ≤ other.address := by
  have order := (List.pairwise_append.mp layout.tiles.ordered).2.1
  have after := (List.pairwise_cons.mp order).1 other member
  unfold Region.extent at after
  omega

theorem next_starts (layout : Layout span heap (left ++ region :: other :: right)) :
    other.address = region.address + sizeofNode + region.size := by
  obtain ⟨middle, _, same, follows, _⟩ := Tiles.append.mp layout.tiles
  unfold Region.extent at follows
  omega

/-- The free list is strictly ascending, with room for a header between its nodes. -/
theorem ascending (layout : Layout span heap regions) :
    (freeNodes regions).Pairwise (fun first second => first + sizeofNode ≤ second) := by
  have order := layout.tiles.ordered
  refine List.pairwise_map.mpr ((order.filter _).imp ?_)
  intro first second before
  unfold Region.extent at before
  omega

theorem nonnull (layout : Layout span heap regions) (valid : HeapSpan span) {node : Nat}
    (member : node ∈ freeNodes regions) : node ≠ 0 := by
  obtain ⟨region, inside, _, rfl⟩ := mem_freeNodes.mp member
  have bound := layout.bounds inside
  have positive := valid.nonnull
  omega

/-- The heap has room for fewer free nodes than it has bytes. -/
theorem few_nodes (layout : Layout span heap regions) (valid : HeapSpan span) :
    (freeNodes regions).length < span.size := by
  have count : ∀ {first last : Nat} {pieces : List Region}, Regions.Tile first pieces last →
      first + sizeofNode * pieces.length ≤ last := by
    intro first last pieces tiles
    induction pieces generalizing first with
    | nil => simpa using Nat.le_of_eq tiles
    | cons piece rest ih =>
      have remaining := ih tiles.2
      simp only [Region.extent, sizeofNode, List.length_cons] at remaining ⊢
      omega
  have total := count layout.tiles
  have filtered : (freeNodes regions).length ≤ regions.length := by
    simpa only [freeNodes, List.length_map] using List.length_filter_le _ _
  have room := valid.header
  unfold sizeofNode at total room
  omega

end Layout
end PicoOs.Std
