import PicoOs.Proofs.HeapLayout

/-! What `allocate` and `deallocate` do to the list of regions. Allocation cuts a
free region in two; deallocation frees a region and joins it with free neighbours. -/

namespace PicoOs.Std
open Library MemoryAllocator

variable {span : Bytes} {heap after : MemoryAllocator} {left right : List Region}

theorem roundToWord_eq {size : Nat} (small : size + sizeofNode < 2 ^ 32) :
    size ≤ roundToWord size ∧ roundToWord size < size + 4 ∧ roundToWord size % 4 = 0 := by
  unfold sizeofNode at small
  unfold roundToWord wrap
  split <;> omega

def lastNode (nodes : List Nat) : Nat := nodes.getLastD 0

theorem lastNode_nil : lastNode [] = 0 := rfl

theorem lastNode_concat (init : List Nat) (last : Nat) : lastNode (init ++ [last]) = last := by
  simp [lastNode]

namespace MemoryAllocator

/-- The loop of `allocate` passes entries that are too small and splits the first one that fits. -/
theorem allocateLoop_finds {size fuel previous entry pointer : Nat} {nodes : List Nat}
    (linked : Segment heap.nodeNext entry nodes 0)
    (found : allocateLoop size fuel heap previous entry = .ok (pointer, after)) :
    ∃ skipped node rest, nodes = skipped ++ node :: rest ∧
    wrap (size + sizeofNode) ≤ heap.nodeSize node ∧
      pointer = nodeData node ∧ after = heap.split size (skipped.getLastD previous) node := by
  induction nodes generalizing fuel previous entry with
  | nil =>
    cases fuel with
    | zero => cases found
    | succ fuel => simp [allocateLoop, show entry = 0 from linked] at found
  | cons node rest ih =>
    obtain ⟨rfl, remaining⟩ := linked
    cases fuel with
    | zero => cases found
    | succ fuel =>
      simp only [allocateLoop] at found
      split at found
      · cases found
      split at found
      next fits =>
        split at found
        · cases found
          exact ⟨[], entry, rest, rfl, fits, rfl, rfl⟩
        · cases found
      next =>
        obtain ⟨skipped, node, final, rfl, fits, same, shape⟩ := ih remaining found
        exact ⟨entry :: skipped, node, final, rfl, fits, same,
          by rw [List.getLastD_cons]; exact shape⟩

/-- With enough fuel and aligned nodes only a missing entry stops the loop of `allocate`. -/
theorem allocateLoop_fault {size fuel previous entry : Nat} {nodes : List Nat} {fault : HeapFault}
    (linked : Segment heap.nodeNext entry nodes 0) (enough : nodes.length < fuel)
    (aligned : ∀ node ∈ nodes, nodeData node % 4 = 0)
    (stopped : allocateLoop size fuel heap previous entry = .error fault) :
    fault = .verifyNotReached := by
  induction nodes generalizing fuel previous entry with
  | nil =>
    obtain ⟨fuel, rfl⟩ := Nat.exists_eq_add_of_lt enough
    simp [allocateLoop, show entry = 0 from linked] at stopped
    exact stopped.symm
  | cons node rest ih =>
    obtain ⟨rfl, remaining⟩ := linked
    cases fuel with
    | zero => simp at enough
    | succ fuel =>
      simp only [allocateLoop] at stopped
      split at stopped
      · cases stopped; rfl
      split at stopped
      · rw [if_pos (aligned entry (by simp))] at stopped
        cases stopped
      · exact ih remaining (by simpa using enough) (fun other member => aligned other (by simp [member])) stopped

/-- The loop of `deallocate` stops at the first entry above the target. -/
theorem deallocateLoop_finds {target fuel previous entry node : Nat} {skipped rest : List Nat}
    (linked : Segment heap.nodeNext entry (skipped ++ node :: rest) 0)
    (nonnull : ∀ other ∈ skipped ++ node :: rest, other ≠ 0)
    (below : ∀ other ∈ skipped, other ≤ target) (above : target < node)
    (enough : skipped.length < fuel) :
    deallocateLoop target fuel heap previous entry =
      .ok (some (heap.insert target (skipped.getLastD previous) node)) := by
  induction skipped generalizing fuel previous entry with
  | nil =>
    obtain ⟨rfl, _⟩ := linked
    obtain ⟨fuel, rfl⟩ := Nat.exists_eq_add_of_lt enough
    simp [deallocateLoop, nonnull entry (by simp), above]
  | cons first skipped ih =>
    obtain ⟨rfl, remaining⟩ := linked
    cases fuel with
    | zero => simp at enough
    | succ fuel =>
      have small := below entry (by simp)
      simp only [deallocateLoop, if_neg (nonnull entry (by simp)), if_neg (Nat.not_lt.mpr small)]
      rw [ih remaining (fun other member => nonnull other (by simp at member ⊢; tauto))
        (fun other member => below other (by simp [member])) (by simpa using enough), List.getLastD_cons]

section split
variable {size previous entry next other : Nat}

/-- The writes of `split`, with the address of the remainder already computed. -/
theorem split_eq (address : wrap (nodeData entry + roundToWord size) = next) :
    heap.split size previous entry =
      ((((heap.setNext next (heap.nodeNext entry)).setSize next
        (minus (minus ((heap.setNext next (heap.nodeNext entry)).nodeSize entry) (roundToWord size)) sizeofNode)).link
          previous next).setNext entry 0).setSize entry (roundToWord size) := by
  simp only [MemoryAllocator.split, address]

private theorem split_nodeSize_entry :
    (heap.split size previous entry).nodeSize entry = roundToWord size % 2 ^ 32 :=
  nodeSize_setSize _

private theorem split_nodeSize_next (address : wrap (nodeData entry + roundToWord size) = next)
    (apart : Apart entry next)
    (behind : previous = 0 ∨ Apart previous next) :
    (heap.split size previous entry).nodeSize next =
      minus (minus (heap.nodeSize entry) (roundToWord size)) sizeofNode % 2 ^ 32 := by
  rw [split_eq address, nodeSize_setSize_apart _ apart, nodeSize_setNext_spaced _ (.inr apart),
    nodeSize_link _ (behind.imp_right .inr), nodeSize_setSize,
      nodeSize_setNext_spaced _ (.inr apart.symm)]

private theorem split_nodeNext_next (address : wrap (nodeData entry + roundToWord size) = next)
    (apart : Apart entry next)
    (behind : previous = 0 ∨ Apart previous next) :
    (heap.split size previous entry).nodeNext next = heap.nodeNext entry % 2 ^ 32 := by
  rw [split_eq address, nodeNext_setSize_spaced _ (.inr apart), nodeNext_setNext_apart _ apart,
    nodeNext_link_apart _ behind, nodeNext_setSize_spaced _ (.inl rfl), nodeNext_setNext]

private theorem split_nodeNext_previous (address : wrap (nodeData entry + roundToWord size) = next)
    (apart : Apart entry previous) (nonnull : previous ≠ 0) :
    (heap.split size previous entry).nodeNext previous = next % 2 ^ 32 := by
  rw [split_eq address, nodeNext_setSize_spaced _ (.inr apart), nodeNext_setNext_apart _ apart,
    nodeNext_link _ nonnull]

private theorem split_nodeSize_other (address : wrap (nodeData entry + roundToWord size) = next)
    (first : Apart entry other) (second : Apart next other)
    (third : previous = 0 ∨ Spaced previous other) :
    (heap.split size previous entry).nodeSize other = heap.nodeSize other := by
  rw [split_eq address, nodeSize_setSize_apart _ first, nodeSize_setNext_spaced _ (.inr first),
    nodeSize_link _ third, nodeSize_setSize_apart _ second, nodeSize_setNext_spaced _ (.inr second)]

private theorem split_nodeNext_other (address : wrap (nodeData entry + roundToWord size) = next)
    (first : Apart entry other) (second : Apart next other)
    (third : previous = 0 ∨ Apart previous other) :
    (heap.split size previous entry).nodeNext other = heap.nodeNext other := by
  rw [split_eq address, nodeNext_setSize_spaced _ (.inr first), nodeNext_setNext_apart _ first,
    nodeNext_link_apart _ third, nodeNext_setSize_spaced _ (.inr second),
      nodeNext_setNext_apart _ second]

private theorem split_freelist :
    (heap.split size previous entry).freelist =
      if previous ≠ 0 then heap.freelist else wrap (nodeData entry + roundToWord size) := by
  simp only [MemoryAllocator.split, setNext, setSize, link]
  split <;> rfl

private theorem split_heap : (heap.split size previous entry).heap = heap.heap := by
  simp only [MemoryAllocator.split, setNext, setSize, link]
  split <;> rfl

end split
end MemoryAllocator

namespace Layout

/-- The node found in front of a position is null or one of the free nodes before it. -/
theorem lastNode_cases (layout : Layout span heap (left ++ right)) (valid : HeapSpan span) :
    (freeNodes left = [] ∧ lastNode (freeNodes left) = 0) ∨
      ∃ init before, freeNodes left = init ++ [before.address] ∧ before ∈ left ∧
      before.live = false ∧
        lastNode (freeNodes left) = before.address ∧ before.address ≠ 0 ∧
        ∀ node ∈ init, Apart before.address node := by
  rcases List.eq_nil_or_concat (freeNodes left) with empty | ⟨init, last, shape⟩
  · exact .inl ⟨empty, by rw [empty, lastNode_nil]⟩
  · rw [List.concat_eq_append] at shape
    obtain ⟨before, member, free, rfl⟩ :=
      mem_freeNodes.mp (show last ∈ freeNodes left by simp [shape])
    have order := layout.ascending
    rw [freeNodes_append, shape] at order
    have inner := (List.pairwise_append.mp (List.pairwise_append.mp order).1).2.2
    refine .inr ⟨init, before, shape, member, free, by rw [shape, lastNode_concat], ?_, ?_⟩
    · exact layout.nonnull valid (by rw [freeNodes_append, shape]; simp)
    · exact fun node inside => .inl (inner node inside _ (by simp))

/-- `link` makes the free nodes before a position lead to the new node. -/
theorem front {node : Nat} (layout : Layout span heap (left ++ right)) (valid : HeapSpan span)
    (small : node < 2 ^ 32)
    (head : after.freelist = if lastNode (freeNodes left) ≠ 0 then heap.freelist else node)
    (linked : lastNode (freeNodes left) ≠ 0 → after.nodeNext (lastNode (freeNodes left)) = node % 2 ^ 32)
    (kept : ∀ other ∈ left, Apart (lastNode (freeNodes left)) other.address →
      after.nodeNext other.address = heap.nodeNext other.address) :
    Segment after.nodeNext after.freelist (freeNodes left) node := by
  rcases layout.lastNode_cases valid with ⟨empty, null⟩ | ⟨init, before, shape, _, _, found,
    nonnull, apart⟩
  · rw [empty, head, null]
    rfl
  · have links := layout.links
    rw [freeNodes_append, shape] at links
    obtain ⟨middle, first, _⟩ := Segment.append.mp links
    rw [shape, head, found, if_pos nonnull]
    refine first.redirect ?_ ?_
    · intro node inside
      obtain ⟨other, otherInside, _, rfl⟩ :=
        mem_freeNodes.mp (show node ∈ freeNodes left by simp [shape, inside])
      exact kept other otherInside (found ▸ apart _ inside)
    · rw [← found, linked (found ▸ nonnull), Nat.mod_eq_of_lt small]

/-- Replacing consecutive regions by others that fill the same interval. Outside
of them only links may change, so that the free list passes through the new ones. -/
theorem rebuild {old middle : List Region} {target follow : Nat}
    (layout : Layout span heap (left ++ old ++ right))
    (within : after.heap = heap.heap)
    (tiles : ∀ {first last}, Regions.Tile first old last → Regions.Tile first middle last)
    (words : ∀ region ∈ middle, region.address % 4 = 0 ∧ region.size % 4 = 0)
    (sizes : ∀ region ∈ middle, after.nodeSize region.address = region.size)
    (others : ∀ region ∈ left ++ right, after.nodeSize region.address =
      heap.nodeSize region.address)
    (front : Segment after.nodeNext after.freelist (freeNodes left) target)
    (body : Segment after.nodeNext target (freeNodes middle) follow)
    (back : Segment heap.nodeNext follow (freeNodes right) 0)
    (kept : ∀ region ∈ right, after.nodeNext region.address = heap.nodeNext region.address)
    (top : TopFree (left ++ middle ++ right)) : Layout span after (left ++ middle ++ right) where
  within := within.trans layout.within
  tiles := by
    obtain ⟨stop, before, final⟩ := Tiles.append.mp layout.tiles
    obtain ⟨start, first, same⟩ := Tiles.append.mp before
    exact Tiles.append.mpr ⟨stop, Tiles.append.mpr ⟨start, first, tiles same⟩, final⟩
  words region member := by
    simp only [List.mem_append] at member
    rcases member with (member | member) | member
    · exact layout.words region (by simp [member])
    · exact words region member
    · exact layout.words region (by simp [member])
  sizes region member := by
    simp only [List.mem_append] at member
    rcases member with (member | member) | member
    · exact (others region (by simp [member])).trans (layout.sizes region (by simp [member]))
    · exact sizes region member
    · exact (others region (by simp [member])).trans (layout.sizes region (by simp [member]))
  links := by
    rw [freeNodes_append, freeNodes_append]
    refine Segment.append.mpr ⟨follow, Segment.append.mpr ⟨target, front, body⟩, back.congr ?_⟩
    intro node member
    obtain ⟨region, inside, _, rfl⟩ := mem_freeNodes.mp member
    exact kept region inside
  top := top

/-- Where the free list stands after the nodes of a prefix. -/
theorem back (layout : Layout span heap (left ++ right)) :
    ∃ node, Segment heap.nodeNext heap.freelist (freeNodes left) node ∧
      Segment heap.nodeNext node (freeNodes right) 0 := by
  have links := layout.links
  rw [freeNodes_append] at links
  exact Segment.append.mp links

/-- Cutting a free region: the lower part becomes live, the rest, possibly of size
zero, stays free and takes the place of the region in the free list. -/
theorem split {region : Region} {size : Nat} (valid : HeapSpan span)
    (layout : Layout span heap (left ++ region :: right)) (free : region.live = false)
    (small : size + sizeofNode < 2 ^ 32) (fits : size + sizeofNode ≤ region.size) :
    Layout span (heap.split size (lastNode (freeNodes left)) region.address)
      (left ++ [⟨region.address, roundToWord size, true⟩,
        ⟨region.address + sizeofNode + roundToWord size,
          region.size - roundToWord size - sizeofNode, false⟩] ++ right) := by
  have header : sizeofNode = 8 := rfl
  obtain ⟨enough, near, word⟩ := roundToWord_eq small
  obtain ⟨alignedAddress, alignedSize⟩ := layout.words region (by simp)
  have inside := layout.bounds (show region ∈ left ++ region :: right by simp)
  have top := valid.fits
  have room : roundToWord size + sizeofNode ≤ region.size := by omega
  have address : wrap (nodeData region.address + roundToWord size) =
      region.address + sizeofNode + roundToWord size := by
    unfold nodeData wrap
    omega
  generalize nextValue : region.address + sizeofNode + roundToWord size = next at *
  have ownApart : Apart region.address next := by unfold Apart; omega
  have leftApart : ∀ other ∈ left, Apart region.address other.address ∧
    Apart next other.address := by
    intro other member
    have := layout.below member
    unfold Apart
    omega
  have rightApart : ∀ other ∈ right, Apart region.address other.address ∧
    Apart next other.address := by
    intro other member
    have := layout.above member
    unfold Apart
    omega
  have otherApart : ∀ other ∈ left ++ right, Apart region.address other.address ∧
    Apart next other.address :=
    fun other member => (List.mem_append.mp member).elim (leftApart other) (rightApart other)
  have previousApart : lastNode (freeNodes left) = 0 ∨ Apart (lastNode (freeNodes left)) next ∧
      Apart region.address (lastNode (freeNodes left)) ∧
      (∀ other ∈ left ++ right, Spaced (lastNode (freeNodes left)) other.address) ∧
      ∀ other ∈ right, Apart (lastNode (freeNodes left)) other.address := by
    rcases layout.lastNode_cases valid with ⟨_, null⟩ | ⟨_, before, _, member, _, same, _⟩
    · exact .inl null
    · rw [same]
      refine .inr ⟨(leftApart before member).2.symm, (leftApart before member).1, ?_, ?_⟩
      · exact fun other inside => layout.spaced (by simp [member]) (by simp at inside ⊢; tauto)
      · intro other inside
        have := layout.below member
        have := layout.above inside
        unfold Apart
        omega
  have behind := previousApart.imp_right And.left
  have shape : left ++ region :: right = left ++ [region] ++ right := by simp
  obtain ⟨_, _, final⟩ := layout.back
  rw [freeNodes_free free] at final
  refine (shape ▸ layout).rebuild split_heap ?_ ?_ ?_ ?_ ?_ ⟨rfl, rfl⟩ ?_ ?_ ?_
  · rintro first last ⟨same, tile⟩
    refine ⟨same, by simp only [Region.extent]; omega, ?_⟩
    simp only [Tiles, Region.extent] at tile ⊢
    omega
  · intro other member
    simp only [List.mem_cons, List.not_mem_nil, or_false] at member
    rcases member with rfl | rfl
    · exact ⟨alignedAddress, word⟩
    · simp only
      omega
  · intro other member
    simp only [List.mem_cons, List.not_mem_nil, or_false] at member
    rcases member with rfl | rfl
    · rw [split_nodeSize_entry]
      exact Nat.mod_eq_of_lt (by omega)
    · rw [split_nodeSize_next address ownApart behind, layout.sizes region (by simp)]
      simp only [minus]
      omega
  · intro other member
    exact split_nodeSize_other address (otherApart other member).1 (otherApart other member).2
      (previousApart.imp_right fun facts => facts.2.2.1 other member)
  · refine layout.front valid (show next < 2 ^ 32 by omega) (split_freelist.trans (by rw [address])) ?_ ?_
    · intro nonnull
      exact split_nodeNext_previous address (previousApart.resolve_left nonnull).2.1 nonnull
    · exact fun other member apart =>
        split_nodeNext_other address (leftApart other member).1
          (leftApart other member).2 (.inr apart)
  · rw [split_nodeNext_next address ownApart behind, Nat.mod_eq_of_lt (nodeNext_lt heap)]
    exact final.2
  · exact fun other member => split_nodeNext_other address (rightApart other member).1
      (rightApart other member).2
      (previousApart.imp_right fun facts => facts.2.2.2 other member)
  · exact (shape ▸ layout.top).swap rfl

end Layout

structure Touches (entry : Nat) (heap after : MemoryAllocator) : Prop where
  within : after.heap = heap.heap
  freelist : after.freelist = heap.freelist
  agree : ∀ {start stop}, stop ≤ entry ∨ entry + sizeofNode ≤ start →
    Memory.Agree heap.memory after.memory start stop

namespace Touches
variable {entry other value : Nat} {middle : MemoryAllocator}

theorem setSize : Touches entry heap (heap.setSize entry value) := ⟨rfl, rfl, setSize_agree heap⟩

theorem setNext : Touches entry heap (heap.setNext entry value) := ⟨rfl, rfl, setNext_agree heap⟩

theorem trans (first : Touches entry heap middle) (second : Touches entry middle after) :
    Touches entry heap after :=
  ⟨second.within.trans first.within, second.freelist.trans first.freelist,
    fun apart => (first.agree apart).trans (second.agree apart)⟩

theorem nodeSize (touches : Touches entry heap after) (apart : Apart entry other) :
    after.nodeSize other = heap.nodeSize other :=
  (touches.agree apart).load (Nat.le_refl _) (by unfold sizeofNode; omega)

theorem nodeNext (touches : Touches entry heap after) (apart : Apart entry other) :
    after.nodeNext other = heap.nodeNext other :=
  (touches.agree apart).load (Nat.le_add_right _ _) (by unfold sizeofNode; omega)

end Touches

namespace Layout

theorem adjacent_iff {regions : List Region} {region : Region} {node : Nat}
    (layout : Layout span heap regions)
    (valid : HeapSpan span) (member : region ∈ regions) (nonnull : node ≠ 0)
    (small : node < 2 ^ 32) :
    heap.adjacent region.address node = true ↔
    region.address + sizeofNode + region.size = node := by
  have header : sizeofNode = 8 := rfl
  have inside := layout.bounds member
  have top := valid.fits
  simp only [adjacent, nodeData, wrap, layout.sizes region member, decide_eq_true_eq]
  omega

section
variable {region : Region} {absorbed : List Region} {size follow : Nat}

def Spans (region : Region) (absorbed : List Region) (size : Nat) : Prop :=
  ∀ {last}, Regions.Tile (region.address + region.extent) absorbed last →
    last = region.address + sizeofNode + size

theorem Spans.tile (spans : Spans region absorbed size) {first last : Nat}
    (tiles : Regions.Tile first (region :: absorbed) last) :
    Regions.Tile first [⟨region.address, size, false⟩] last := by
  obtain ⟨rfl, rest⟩ := tiles
  refine ⟨rfl, ?_⟩
  rw [spans rest]
  simp only [Tiles, Region.extent]
  omega

theorem others_apart (layout : Layout span heap (left ++ (region :: absorbed) ++ right)) :
    (∀ other ∈ left, Apart region.address other.address) ∧
    ∀ other ∈ right, Apart region.address other.address := by
  rw [List.append_assoc, List.cons_append] at layout
  constructor
  · intro other member
    have := layout.below member
    unfold Apart
    omega
  · intro other member
    have := layout.above (show other ∈ absorbed ++ right by simp [member])
    unfold Apart
    omega

/-- A free region grows by what it absorbed; the free list already leads to it. -/
theorem grow (layout : Layout span heap (left ++ (region :: absorbed) ++ right))
    (free : region.live = false)
    (touches : Touches region.address heap after) (newSize : after.nodeSize region.address = size)
    (word : size % 4 = 0) (newNext : after.nodeNext region.address = follow)
    (spans : Spans region absorbed size)
    (back : Segment heap.nodeNext follow (freeNodes right) 0) :
    Layout span after (left ++ [⟨region.address, size, false⟩] ++ right) := by
  obtain ⟨leftApart, rightApart⟩ := others_apart layout
  refine layout.rebuild touches.within spans.tile ?_ ?_ ?_ ?_ ⟨rfl, newNext⟩ back ?_
    (layout.top.swap rfl)
  · intro other member
    obtain rfl := List.mem_singleton.mp member
    exact ⟨(layout.words region (by simp)).1, word⟩
  · intro other member
    obtain rfl := List.mem_singleton.mp member
    exact newSize
  · exact fun other member =>
      touches.nodeSize ((List.mem_append.mp member).elim (leftApart other) (rightApart other))
  · rw [List.append_assoc, List.cons_append] at layout
    obtain ⟨node, first, rest⟩ := layout.back
    rw [freeNodes_free free] at rest
    obtain ⟨rfl, _⟩ := rest
    rw [touches.freelist]
    refine first.congr fun node member => ?_
    obtain ⟨other, inside, _, rfl⟩ := mem_freeNodes.mp member
    exact touches.nodeNext (leftApart other inside)
  · exact fun other member => touches.nodeNext (rightApart other member)

/-- A live region, with what it absorbed, becomes a free node behind the last free node before
it. -/
theorem settle (valid : HeapSpan span)
    (layout : Layout span heap (left ++ (region :: absorbed) ++ right))
    (touches : Touches region.address heap after) (newSize : after.nodeSize region.address = size)
    (word : size % 4 = 0) (newNext : after.nodeNext region.address = follow)
    (spans : Spans region absorbed size)
    (back : Segment heap.nodeNext follow (freeNodes right) 0) :
    Layout span (after.link (lastNode (freeNodes left)) region.address)
      (left ++ [⟨region.address, size, false⟩] ++ right) := by
  obtain ⟨leftApart, rightApart⟩ := others_apart layout
  have inside := layout.bounds (show region ∈ left ++ (region :: absorbed) ++ right by simp)
  have header : sizeofNode = 8 := rfl
  have highest := valid.fits
  have previousApart : lastNode (freeNodes left) = 0 ∨
    Apart region.address (lastNode (freeNodes left)) ∧
      (∀ other ∈ left ++ right, Spaced (lastNode (freeNodes left)) other.address) ∧
      ∀ other ∈ right, Apart (lastNode (freeNodes left)) other.address := by
    rw [List.append_assoc, List.cons_append] at layout
    rcases layout.lastNode_cases valid with ⟨_, null⟩ | ⟨_, before, _, member, _, same, _⟩
    · exact .inl null
    · rw [same]
      refine .inr ⟨leftApart before member, ?_, ?_⟩
      · exact fun other inside => layout.spaced (by simp [member]) (by simp at inside ⊢; tauto)
      · intro other inside
        have := layout.below member
        have := layout.above (show other ∈ absorbed ++ right by simp [inside])
        unfold Apart
        omega
  have linkWithin : (after.link (lastNode (freeNodes left)) region.address).heap = after.heap := by
    unfold link
    split <;> rfl
  refine layout.rebuild (linkWithin.trans touches.within) spans.tile ?_ ?_ ?_ ?_ ⟨rfl, ?_⟩ back ?_
    (layout.top.swap rfl)
  · intro other member
    obtain rfl := List.mem_singleton.mp member
    exact ⟨(layout.words region (by simp)).1, word⟩
  · intro other member
    obtain rfl := List.mem_singleton.mp member
    rw [nodeSize_link _ (previousApart.imp_right fun facts => .inr facts.1.symm)]
    exact newSize
  · intro other member
    rw [nodeSize_link _ (previousApart.imp_right fun facts => facts.2.1 other member)]
    exact touches.nodeSize ((List.mem_append.mp member).elim (leftApart other) (rightApart other))
  · rw [List.append_assoc] at layout
    refine layout.front valid (show region.address < 2 ^ 32 by omega) ?_ ?_ ?_
    · unfold link
      rw [← touches.freelist]
      split <;> rfl
    · exact nodeNext_link after
    · intro other member apart
      rw [nodeNext_link_apart _ (.inr apart)]
      exact touches.nodeNext (leftApart other member)
  · rw [nodeNext_link_apart _ (previousApart.imp_right fun facts => facts.1.symm)]
    exact newNext
  · intro other member
    rw [nodeNext_link_apart _ (previousApart.imp_right fun facts => facts.2.2 other member)]
    exact touches.nodeNext (rightApart other member)

end
end Layout
end PicoOs.Std
