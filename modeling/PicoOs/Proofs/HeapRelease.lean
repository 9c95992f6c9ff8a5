import PicoOs.Proofs.HeapOperations

/-! Deallocation of a live region. The loop always finds a free node above it, and
the region is joined with the neighbours that are free. -/

namespace PicoOs.Std
open Library MemoryAllocator

variable {span : Bytes} {heap after : MemoryAllocator} {left right : List Region}
  {region previous next : Region}

def StartsFree (regions : List Region) : Prop := regions.head?.map Region.live = some false

inductive Released (region : Region) : List Region → List Region → Prop where
  | alone {left right : List Region} (below : ¬ TopFree left) (above : ¬ StartsFree right) :
      Released region (left ++ [region] ++ right) (left ++ [⟨region.address, region.size, false⟩] ++ right)
  | right {left right : List Region} {next : Region} (below : ¬ TopFree left)
      (above : next.live = false) :
      Released region (left ++ [region, next] ++ right)
        (left ++ [⟨region.address, region.size + (sizeofNode + next.size), false⟩] ++ right)
  | left {left right : List Region} {previous : Region} (below : previous.live = false)
      (above : ¬ StartsFree right) :
      Released region (left ++ [previous, region] ++ right)
        (left ++ [⟨previous.address, previous.size + (sizeofNode + region.size), false⟩] ++ right)
  | both {left right : List Region} {previous next : Region} (below : previous.live = false)
      (above : next.live = false) :
      Released region (left ++ [previous, region, next] ++ right)
        (left ++ [⟨previous.address, previous.size + (sizeofNode + region.size) + (sizeofNode + next.size), false⟩]
          ++ right)

namespace Released
variable {regions final : List Region}

theorem live_perm (released : Released region regions final) (live : region.live = true) :
    (liveNodes regions).Perm (region.address :: liveNodes final) := by
  cases released <;> simp_all [liveNodes]

theorem keeps {other : Region} (released : Released region regions final) (member : other ∈ regions)
    (live : other.live = true) (different : other ≠ region) : other ∈ final := by
  have notFree : ∀ {neighbour : Region}, neighbour.live = false → other ≠ neighbour := by
    rintro neighbour free rfl
    rw [free] at live
    cases live
  cases released with
  | alone =>
    simp only [List.append_assoc, List.mem_append, List.mem_cons, different] at member ⊢
    tauto
  | right _ above =>
    simp only [List.append_assoc, List.mem_append, List.mem_cons, different,
      notFree above] at member ⊢
    tauto
  | left below _ =>
    simp only [List.append_assoc, List.mem_append, List.mem_cons, different,
      notFree below] at member ⊢
    tauto
  | both below above =>
    simp only [List.append_assoc, List.mem_append, List.mem_cons, different, notFree below,
      notFree above] at member ⊢
    tauto

theorem maximal (released : Released region regions final) (maximal : Maximal Region.live regions) :
    Maximal Region.live final := by
  have solid_below {left : List Region} (below : ¬TopFree left) : ∀ other ∈ left.getLast?,
    other.live = true := by
    intro other last
    refine eq_true_of_ne_false fun free => below ?_
    rw [TopFree, Option.mem_def.mp last, Option.map_some, free]
  have solid_above {right : List Region} (above : ¬StartsFree right) : ∀ other ∈ right.head?,
    other.live = true := by
    intro other first
    refine eq_true_of_ne_false fun free => above ?_
    rw [StartsFree, Option.mem_def.mp first, Option.map_some, free]
  cases released with
  | alone below above =>
    obtain ⟨front, behind, _⟩ := List.isChain_append.mp maximal
    exact .around front.left_of_append behind (solid_below below) (solid_above above)
  | @right left right next below above =>
    have shape : left ++ [region, next] ++ right = (left ++ [region]) ++ next :: right := by simp
    rw [shape] at maximal
    obtain ⟨front, behind, _, starts⟩ := maximal.beside above
    exact .around front.left_of_append behind (solid_below below) starts
  | @left left right previous below above =>
    have shape : left ++ [previous, region] ++ right = left ++ previous :: ([region] ++ right) := by
      simp
    rw [shape] at maximal
    obtain ⟨front, behind, ends, _⟩ := maximal.beside below
    exact .around front behind.right_of_append ends (solid_above above)
  | @both left right previous next below above =>
    have shape : left ++ [previous, region, next] ++ right = left ++
      previous :: ([region] ++ next :: right) := by simp
    rw [shape] at maximal
    obtain ⟨front, behind, ends, _⟩ := maximal.beside below
    obtain ⟨_, rest, _, starts⟩ := behind.beside above
    exact .around front rest ends starts

end Released

theorem Touches.absorb {entry other : Nat} : Touches entry heap (heap.absorb entry other) :=
  Touches.setSize

private theorem absorb_nodeSize {entry other total : Nat}
    (sum : heap.nodeSize entry + (sizeofNode + heap.nodeSize other) = total)
    (small : total < 2 ^ 32) : (heap.absorb entry other).nodeSize entry = total := by
  rw [absorb, nodeSize_setSize, sum, wrap_of_lt small, Nat.mod_eq_of_lt small]

theorem absorb_nodeNext {entry other node : Nat} (spaced : Spaced entry node) :
    (heap.absorb entry other).nodeNext node = heap.nodeNext node :=
  nodeNext_setSize_spaced heap spaced

namespace Layout

/-- The last free node before a live or missing neighbour does not touch the region. -/
theorem not_adjacent_before (layout : Layout span heap (left ++ region :: right))
    (valid : HeapSpan span)
    (below : ¬ TopFree left) :
    ¬ (lastNode (freeNodes left) ≠ 0 ∧ heap.adjacent (lastNode (freeNodes left)) region.address = true) := by
  rintro ⟨nonnull, adjacent⟩
  obtain ⟨_, before, _, member, free, same, _⟩ :=
    (layout.lastNode_cases valid).resolve_left (fun empty => nonnull empty.2)
  have inside := layout.bounds (show region ∈ left ++ region :: right by simp)
  have positive := valid.nonnull
  have highest := valid.fits
  have header : sizeofNode = 8 := rfl
  rw [same, layout.adjacent_iff valid (by simp [member]) (by omega) (by omega)] at adjacent
  obtain ⟨init, last, rfl⟩ := (List.eq_nil_or_concat left).resolve_left (List.ne_nil_of_mem member)
  rw [List.concat_eq_append] at layout below member
  have final := layout.below (show last ∈ init ++ [last] by simp)
  rcases List.mem_append.mp member with earlier | same
  · have order := (List.pairwise_append.mp (List.pairwise_append.mp layout.tiles.ordered).1).2.2
      before earlier last (by simp)
    unfold Region.extent at order
    omega
  · obtain rfl := List.mem_singleton.mp same
    exact below (by simp [TopFree, free])

private theorem adjacent_before (layout : Layout span heap (left ++ previous :: region :: right))
    (valid : HeapSpan span)
    (free : previous.live = false) :
    lastNode (freeNodes (left ++ [previous])) = previous.address ∧ previous.address ≠ 0 ∧
      heap.adjacent previous.address region.address = true := by
  have inside := layout.bounds (show region ∈ left ++ previous :: region :: right by simp)
  have lower := layout.bounds (show previous ∈ left ++ previous :: region :: right by simp)
  have positive := valid.nonnull
  have highest := valid.fits
  have header : sizeofNode = 8 := rfl
  refine ⟨by rw [freeNodes_append, freeNodes_free free]; exact lastNode_concat _ _, by omega, ?_⟩
  exact (layout.adjacent_iff valid (by simp) (by omega) (by omega)).mpr layout.next_starts.symm

/-- Above a live region there is a free node, and it touches the region exactly if it is its
neighbour. -/
theorem free_above (layout : Layout span heap (left ++ region :: right)) (valid : HeapSpan span)
    (live : region.live = true) :
    ∃ node rest, freeNodes right = node :: rest ∧ region.address < node ∧
      (heap.adjacent region.address node = true ↔ StartsFree right) := by
  have header : sizeofNode = 8 := rfl
  have highest := valid.fits
  cases right with
  | nil =>
    have free : region.live = false := topFree_cons.mp layout.top
    rw [live] at free
    cases free
  | cons next right =>
    have start := layout.next_starts
    have inside := layout.bounds (show next ∈ left ++ region :: next :: right by simp)
    have nonempty : freeNodes (next :: right) ≠ [] := by
      have top : TopFree (next :: right) := by
        have whole : TopFree ((left ++ [region]) ++ next :: right) := by simpa using layout.top
        exact (topFree_append (by simp)).mp whole
      obtain ⟨last, found, free⟩ := Option.map_eq_some_iff.mp top
      exact List.ne_nil_of_mem (mem_freeNodes.mpr ⟨last, List.mem_of_getLast? found, free, rfl⟩)
    obtain ⟨node, rest, shape⟩ := List.exists_cons_of_ne_nil nonempty
    obtain ⟨above, member, free, rfl⟩ :=
      mem_freeNodes.mp (show node ∈ freeNodes (next :: right) by simp [shape])
    have higher := layout.above member
    have fits := layout.bounds (show above ∈ left ++ region :: next :: right by
      simp only [List.mem_append, List.mem_cons] at member ⊢; tauto)
    refine ⟨above.address, rest, shape, by omega, ?_⟩
    rw [layout.adjacent_iff valid (by simp) (by omega) (by omega)]
    constructor
    · intro touching
      rcases List.mem_cons.mp member with rfl | later
      · simp [StartsFree, free]
      · have order := layout.tiles.ordered
        have farther := (List.pairwise_cons.mp (List.pairwise_cons.mp
          (List.pairwise_append.mp order).2.1).2).1 above later
        unfold Region.extent at farther
        omega
    · intro starts
      have nextFree : next.live = false := by simpa [StartsFree] using starts
      rw [freeNodes_free nextFree] at shape
      have same := (List.cons.inj shape).1
      omega

/-- A region that absorbs the one behind it has the size of both and spans both. -/
private theorem joined (layout : Layout span heap (left ++ [region, next] ++ right))
    (valid : HeapSpan span) :
    (heap.absorb region.address next.address).nodeSize region.address = region.size +
      (sizeofNode + next.size) ∧
      (region.size + (sizeofNode + next.size)) % 4 = 0 ∧
      Spans region [next] (region.size + (sizeofNode + next.size)) := by
  have header : sizeofNode = 8 := rfl
  have inside := layout.bounds (show next ∈ left ++ [region, next] ++ right by simp)
  have firstWords := layout.words region (by simp)
  have lastWords := layout.words next (by simp)
  have highest := valid.fits
  have sum : heap.nodeSize region.address + (sizeofNode + heap.nodeSize next.address) =
      region.size + (sizeofNode + next.size) := by
    rw [layout.sizes region (by simp), layout.sizes next (by simp)]
  rw [List.append_assoc] at layout
  have starts : next.address = region.address + sizeofNode + region.size := layout.next_starts
  refine ⟨absorb_nodeSize sum (by omega), by omega, ?_⟩
  intro last tiles
  simp only [Tiles, Region.extent] at tiles
  omega

private theorem absorb_previous (layout : Layout span heap (left ++ [previous, region] ++ right))
    (valid : HeapSpan span)
    (free : previous.live = false) (live : region.live = true) :
    Layout span (heap.absorb previous.address region.address)
      (left ++ [⟨previous.address, previous.size + (sizeofNode + region.size), false⟩] ++ right) := by
  obtain ⟨size, word, spans⟩ := layout.joined valid
  refine layout.grow free .absorb size word (absorb_nodeNext (.inl rfl)) spans ?_
  rw [List.append_assoc] at layout
  obtain ⟨node, _, links⟩ := layout.back
  rw [List.cons_append, freeNodes_free free, List.cons_append, freeNodes_live live] at links
  exact links.2

private theorem absorb_next (layout : Layout span heap (left ++ [region, next] ++ right))
    (valid : HeapSpan span)
    (free : region.live = false) (above : next.live = false) :
    Layout span ((heap.absorb region.address next.address).setNext region.address
        ((heap.absorb region.address next.address).nodeNext next.address))
      (left ++ [⟨region.address, region.size + (sizeofNode + next.size), false⟩] ++ right) := by
  obtain ⟨size, word, spans⟩ := layout.joined valid
  have sameSize : ((heap.absorb region.address next.address).setNext region.address
      ((heap.absorb region.address next.address).nodeNext next.address)).nodeSize region.address =
        (heap.absorb region.address next.address).nodeSize region.address :=
          nodeSize_setNext_spaced _ (.inl rfl)
  refine layout.grow free (Touches.absorb.trans .setNext) (sameSize.trans size) word
    (nodeNext_setNext _) spans ?_
  rw [absorb_nodeNext (layout.spaced (by simp) (by simp)), Nat.mod_eq_of_lt (nodeNext_lt heap)]
  rw [List.append_assoc] at layout
  obtain ⟨node, _, links⟩ := layout.back
  rw [List.cons_append, freeNodes_free free, List.cons_append, freeNodes_free above] at links
  obtain ⟨_, _, remaining⟩ := links
  exact remaining

private theorem settle_alone {node : Nat} {rest : List Nat}
    (layout : Layout span heap (left ++ [region] ++ right))
    (valid : HeapSpan span) (live : region.live = true) (above : freeNodes right = node :: rest) :
    Layout span ((heap.setNext region.address node).link (lastNode (freeNodes left)) region.address)
      (left ++ [⟨region.address, region.size, false⟩] ++ right) := by
  have small : node < 2 ^ 32 := by
    obtain ⟨other, member, _, rfl⟩ := mem_freeNodes.mp (show node ∈ freeNodes right by simp [above])
    have inside := layout.bounds (show other ∈ left ++ [region] ++ right by simp [member])
    have highest := valid.fits
    unfold sizeofNode at inside
    omega
  refine settle valid layout .setNext ?_ (layout.words region (by simp)).2 (nodeNext_setNext _) ?_ ?_
  · rw [nodeSize_setNext_spaced _ (.inl rfl)]
    exact layout.sizes region (by simp)
  · intro last tiles
    simp only [Tiles, Region.extent] at tiles
    omega
  · rw [List.append_assoc, List.singleton_append] at layout
    obtain ⟨head, _, links⟩ := layout.back
    rw [freeNodes_live live, above] at links
    rw [Nat.mod_eq_of_lt small, above]
    exact ⟨rfl, links.2⟩

/-- A free neighbour above only: the region becomes a free node that absorbs it. -/
theorem settle_next (layout : Layout span heap (left ++ [region, next] ++ right))
    (valid : HeapSpan span)
    (live : region.live = true) (above : next.live = false) :
    Layout span (((heap.absorb region.address next.address).setNext region.address
        ((heap.absorb region.address next.address).nodeNext next.address)).link
          (lastNode (freeNodes left)) region.address)
      (left ++ [⟨region.address, region.size + (sizeofNode + next.size), false⟩] ++ right) := by
  obtain ⟨size, word, spans⟩ := layout.joined valid
  have sameSize : ((heap.absorb region.address next.address).setNext region.address
      ((heap.absorb region.address next.address).nodeNext next.address)).nodeSize region.address =
        (heap.absorb region.address next.address).nodeSize region.address :=
          nodeSize_setNext_spaced _ (.inl rfl)
  refine settle valid layout (Touches.absorb.trans .setNext) (sameSize.trans size) word
    (nodeNext_setNext _) spans ?_
  rw [absorb_nodeNext (layout.spaced (by simp) (by simp)), Nat.mod_eq_of_lt (nodeNext_lt heap)]
  rw [List.append_assoc] at layout
  obtain ⟨node, _, links⟩ := layout.back
  rw [List.cons_append, freeNodes_live live, List.cons_append, freeNodes_free above] at links
  exact links.2

private theorem insert {node : Nat} {rest : List Nat}
    (layout : Layout span heap (left ++ [region] ++ right))
    (valid : HeapSpan span) (live : region.live = true) (above : freeNodes right = node :: rest)
    (touching : heap.adjacent region.address node = true ↔ StartsFree right) :
    ∃ regions, Released region (left ++ [region] ++ right) regions ∧
      Layout span (heap.insert region.address (lastNode (freeNodes left)) node) regions := by
  have nodeRegion : ∃ other ∈ right, other.address = node := by
    obtain ⟨other, member, _, same⟩ :=
      mem_freeNodes.mp (show node ∈ freeNodes right by simp [above])
    exact ⟨other, member, same⟩
  have nodeFacts : node ≠ 0 ∧ node < 2 ^ 32 := by
    obtain ⟨other, member, rfl⟩ := nodeRegion
    have inside := layout.bounds (show other ∈ left ++ [region] ++ right by simp [member])
    have highest := valid.fits
    have positive := valid.nonnull
    unfold sizeofNode at inside
    omega
  by_cases below : TopFree left
  · obtain ⟨previous, found, free⟩ := Option.map_eq_some_iff.mp below
    obtain ⟨left, rfl⟩ := List.getLast?_eq_some_iff.mp found
    have shape : left ++ [previous] ++ [region] ++ right = left ++ [previous, region] ++ right := by
      simp
    rw [shape] at layout ⊢
    obtain ⟨same, nonnull, adjacent⟩ := adjacent_before (by simpa using layout) valid free
    have merged := layout.absorb_previous valid free live
    have starts : region.address = previous.address + sizeofNode + previous.size :=
      next_starts (by simpa using layout)
    have again : (heap.absorb previous.address region.address).adjacent
      previous.address node = true ↔
        StartsFree right := by
      rw [← touching, layout.adjacent_iff valid (by simp) nodeFacts.1 nodeFacts.2]
      refine (merged.adjacent_iff valid (List.mem_append_left _ (List.mem_append_right _
        (List.mem_singleton_self _))) nodeFacts.1 nodeFacts.2).trans ?_
      constructor <;> intro sum <;> simp only at sum ⊢ <;> omega
    rw [same, MemoryAllocator.insert, if_pos ⟨nonnull, adjacent⟩]
    by_cases free_next : StartsFree right
    · obtain ⟨next, found, nextFree⟩ := Option.map_eq_some_iff.mp free_next
      obtain ⟨right, rfl⟩ := List.head?_eq_some_iff.mp found
      rw [freeNodes_free nextFree] at above
      obtain ⟨rfl, _⟩ := List.cons.inj above
      have last := absorb_next (by simpa using merged) valid rfl nextFree
      have released : Released region (left ++ [previous, region, next] ++ right) _ :=
        .both free nextFree
      refine ⟨_, ?_, by simpa only [if_pos (again.mpr free_next)] using last⟩
      simpa using released
    · exact ⟨_, .left free free_next, by simpa only [if_neg (mt again.mp free_next)] using merged⟩
  · rw [MemoryAllocator.insert, if_neg (not_adjacent_before (by simpa using layout) valid below)]
    by_cases free_next : StartsFree right
    · obtain ⟨next, found, nextFree⟩ := Option.map_eq_some_iff.mp free_next
      obtain ⟨right, rfl⟩ := List.head?_eq_some_iff.mp found
      rw [freeNodes_free nextFree] at above
      obtain ⟨rfl, _⟩ := List.cons.inj above
      have shape : left ++ [region] ++ next :: right = left ++ [region, next] ++ right := by simp
      rw [shape] at layout ⊢
      have last := layout.settle_next valid live nextFree
      exact ⟨_, .right below nextFree, by simpa only [if_pos (touching.mpr free_next)] using last⟩
    · have last := layout.settle_alone valid live above
      exact ⟨_, .alone below free_next,
        by simpa only [if_neg (mt touching.mp free_next)] using last⟩

/-- Deallocating a live region finds the free node above it and releases the region there. -/
theorem deallocateWalk (layout : Layout span heap (left ++ [region] ++ right))
    (valid : HeapSpan span)
    (live : region.live = true) :
    ∃ after regions, heap.deallocateWalk (region.address + sizeofNode) = .ok (some after) ∧
      Released region (left ++ [region] ++ right) regions ∧ Layout span after regions := by
  have header : sizeofNode = 8 := rfl
  have highest := valid.fits
  have inside := layout.bounds (show region ∈ left ++ [region] ++ right by simp)
  obtain ⟨node, rest, shape, above, touching⟩ := free_above (by simpa using layout) valid live
  obtain ⟨regions, released, final⟩ := layout.insert valid live shape touching
  have nodes : freeNodes (left ++ [region] ++ right) = freeNodes left ++ node :: rest := by
    rw [List.append_assoc, freeNodes_append, List.singleton_append, freeNodes_live live, shape]
  have links := layout.links
  have every : ∀ node ∈ freeNodes (left ++ [region] ++ right), node ≠ 0 :=
    fun _ => layout.nonnull valid
  have count := layout.few_nodes valid
  rw [nodes] at links every count
  have before : ∀ other ∈ freeNodes left, other ≤ region.address := by
    intro other member
    obtain ⟨lower, present, _, rfl⟩ := mem_freeNodes.mp member
    rw [List.append_assoc] at layout
    have order := layout.below present
    omega
  obtain ⟨other, member, _, same⟩ := mem_freeNodes.mp (show node ∈ freeNodes right by simp [shape])
  have fits := layout.bounds (show other ∈ left ++ [region] ++ right by simp [member])
  have target : minus (region.address + sizeofNode) sizeofNode = region.address := by
    unfold minus
    omega
  refine ⟨_, regions, ?_, released, final⟩
  rw [MemoryAllocator.deallocateWalk, target, layout.within]
  refine deallocateLoop_finds links every before above ?_
  simp only [List.length_append, List.length_cons] at count
  omega

end Layout
end PicoOs.Std
