import PicoOs.Proofs.HeapRuns

/-! The free list is canonical: which blocks are live determines it, whatever the
order of the calls that led there. -/

namespace PicoOs.Std
open Library

namespace MemoryAllocator

def walk (heap : MemoryAllocator) : Nat → Nat → List (Nat × Nat)
  | 0, _ => []
  | fuel + 1, entry =>
      if entry = 0 then [] else (entry, heap.nodeSize entry) :: walk heap fuel (heap.nodeNext entry)

def freeList (heap : MemoryAllocator) : List (Nat × Nat) := heap.walk heap.heap.size heap.freelist

private theorem walk_segment {heap : MemoryAllocator} {fuel entry : Nat} {nodes : List Nat}
    (links : Segment heap.nodeNext entry nodes 0)
    (nonnull : ∀ node ∈ nodes, node ≠ 0) (enough : nodes.length < fuel) :
    heap.walk fuel entry = nodes.map fun node => (node, heap.nodeSize node) := by
  induction nodes generalizing fuel entry with
  | nil =>
    obtain rfl : entry = 0 := links
    cases fuel with
    | zero => rfl
    | succ fuel => exact if_pos rfl
  | cons node rest ih =>
    obtain ⟨rfl, links⟩ := links
    cases fuel with
    | zero => cases enough
    | succ fuel =>
      rw [walk, if_neg (nonnull entry List.mem_cons_self), List.map_cons,
        ih links (fun other member => nonnull other (List.mem_cons_of_mem _ member))
          (Nat.lt_of_succ_lt_succ enough)]

end MemoryAllocator

namespace HeapState
open MemoryAllocator

def blocks (state : HeapState) : List (Nat × Nat) :=
  state.live.map fun block => (block.pointer, state.blockSize block.pointer)

namespace Holds
variable {span : Bytes} {state other : HeapState} {regions others : List Region}

theorem listed (holds : state.Holds span regions) (valid : HeapSpan span) :
    state.allocator.freeList = (regions.filter fun region => !region.live).map
      fun region => (region.address, region.size) := by
  have enough := holds.layout.few_nodes valid
  rw [← holds.layout.within] at enough
  rw [freeList, walk_segment holds.layout.links (fun _ => holds.layout.nonnull valid) enough,
    freeNodes, List.map_map]
  apply List.map_congr_left
  intro region member
  exact congrArg (Prod.mk _) (holds.layout.sizes region (List.mem_of_mem_filter member))

private theorem first (holds : state.Holds span regions) :
    state.allocator.freelist = (freeNodes regions).headD 0 := by
  have links := holds.layout.links
  cases shape : freeNodes regions with
  | nil =>
    rw [shape] at links
    exact links
  | cons node rest =>
    rw [shape] at links
    exact links.1

theorem mem_blocks (holds : state.Holds span regions) (valid : HeapSpan span) {pointer size : Nat} :
    (pointer, size) ∈ state.blocks ↔
    ∃ region ∈ regions, region.live = true ∧ region.address + sizeofNode = pointer ∧
      region.size = size := by
  constructor
  · intro member
    obtain ⟨block, owned, same⟩ := List.mem_map.mp member
    obtain ⟨left, region, right, shape, live, pointer, _, _, size⟩ := holds.region_of valid owned
    obtain ⟨rfl, rfl⟩ := Prod.mk.inj same
    exact ⟨region, by rw [shape]; simp, live, pointer.symm, size.symm⟩
  · rintro ⟨region, present, live, rfl, rfl⟩
    have named : region.address + sizeofNode ∈ state.live.map Block.pointer :=
      holds.pointers.mem_iff.mpr (List.mem_map_of_mem (mem_liveNodes.mpr ⟨region, present, live, rfl⟩))
    obtain ⟨block, owned, pointer⟩ := List.mem_map.mp named
    obtain ⟨left, place, right, shape, _, also, _, _, size⟩ := holds.region_of valid owned
    have inside : place ∈ regions := by rw [shape]; simp
    have same : place = region := by
      obtain same | before | after := holds.layout.disjoint inside present
      · exact same
      · unfold sizeofNode at *
        omega
      · unfold sizeofNode at *
        omega
    refine List.mem_map.mpr ⟨block, owned, ?_⟩
    rw [size, pointer, same]

private theorem regions_unique (holds : state.Holds span regions) (also : other.Holds span others)
    (valid : HeapSpan span)
    (same : ∀ block, block ∈ state.blocks ↔ block ∈ other.blocks) : regions = others := by
  have shared {first second : HeapState} {left right : List Region} (here : first.Holds span left)
    (there : second.Holds span right)
      (same : ∀ block, block ∈ first.blocks → block ∈ second.blocks) {region : Region}
        (live : region.live = true)
      (member : region ∈ left) : region ∈ right := by
    have block := (here.mem_blocks valid).mpr ⟨region, member, live, rfl, rfl⟩
    obtain ⟨place, present, owned, address, size⟩ := (there.mem_blocks valid).mp (same _ block)
    have equal : place = region := by
      cases place
      cases region
      simp only at owned live address size
      simp only [Region.mk.injEq]
      exact ⟨Nat.add_right_cancel address, size, owned.trans live.symm⟩
    exact equal ▸ present
  refine Tiles.maximal_unique (fun region => Nat.lt_of_lt_of_le (by decide) (Nat.le_add_right sizeofNode region.size)) ?_
    holds.layout.tiles also.layout.tiles holds.maximal also.maximal fun region live =>
      ⟨shared holds also (fun block => (same block).mp) live,
        shared also holds (fun block => (same block).mpr) live⟩
  intro left right free also_free address extent
  cases left
  cases right
  simp only at free also_free address extent
  simp only [Region.mk.injEq]
  exact ⟨address, Nat.add_left_cancel extent, free.trans also_free.symm⟩

theorem canonical (holds : state.Holds span regions) (also : other.Holds span others)
    (valid : HeapSpan span)
    (same : ∀ block, block ∈ state.blocks ↔ block ∈ other.blocks) :
    state.allocator.freelist = other.allocator.freelist ∧
    state.allocator.freeList = other.allocator.freeList := by
  obtain rfl := holds.regions_unique also valid same
  exact ⟨holds.first.trans also.first.symm, (holds.listed valid).trans (also.listed valid).symm⟩

private theorem separate (holds : state.Holds span regions) (valid : HeapSpan span)
    {left right : Nat × Nat}
    (first : left ∈ state.allocator.freeList) (second : right ∈ state.allocator.freeList) :
    left.1 + sizeofNode + left.2 ≠ right.1 := by
  rw [holds.listed valid] at first second
  obtain ⟨region, member, rfl⟩ := List.mem_map.mp first
  obtain ⟨other, also, rfl⟩ := List.mem_map.mp second
  obtain ⟨present, free⟩ := List.mem_filter.mp member
  obtain ⟨inside, other_free⟩ := List.mem_filter.mp also
  have free : region.live = false := by simpa using free
  have other_free : other.live = false := by simpa using other_free
  intro touches
  obtain ⟨before, behind, rfl⟩ := List.append_of_mem present
  obtain ⟨_, _, _, starts⟩ := holds.maximal.beside free
  cases behind with
  | nil =>
    have bound := holds.layout.bounds inside
    have stops := holds.layout.tiles
    obtain ⟨middle, _, same, beyond⟩ := Tiles.append.mp stops
    have beyond : middle + region.extent = span.data + span.size := beyond
    unfold Region.extent sizeofNode at *
    omega
  | cons next rest =>
    have follows := holds.layout.next_starts
    have filled : next.live = true := starts next rfl
    have same : other = next := by
      obtain same | under | beyond :=
        holds.layout.disjoint inside (show next ∈ before ++ region :: next :: rest by simp)
      · exact same
      · unfold sizeofNode at *
        omega
      · unfold sizeofNode at *
        omega
    rw [same, filled] at other_free
    cases other_free

/-- Freeing the live blocks one after the other, in any order, leaves no live block. -/
theorem free_all (holds : state.Holds span regions) (valid : HeapSpan span) {order : List Nat}
    (all : order.Perm (state.live.map Block.pointer)) :
    ∃ final regions, machine.after state (order.map .deallocate) = some final ∧
    final.Holds span regions ∧ final.live = [] := by
  induction order generalizing state regions with
  | nil =>
    have empty : state.live = [] := by simpa using all.symm.eq_nil
    exact ⟨state, regions, rfl, holds, empty⟩
  | cons pointer order ih =>
    obtain ⟨block, member, rfl⟩ := List.mem_map.mp (all.mem_iff.mp List.mem_cons_self)
    have owned : state.permitted (.deallocate block.pointer) := Or.inr ⟨block, member, rfl⟩
    obtain ⟨after, middle, done, next, _⟩ := holds.deallocate valid owned
    have remaining : order.Perm ((state.release block.pointer).map Block.pointer) :=
      (all.trans (holds.release_pointers member)).cons_inv
    obtain ⟨final, rest, freed, settled, empty⟩ := ih next remaining
    refine ⟨final, rest, ?_, settled, empty⟩
    have executed : machine.execute state (.deallocate block.pointer) =
      .ok ⟨after, state.release block.pointer⟩ := by
      change state.execute (.deallocate block.pointer) = _
      rw [HeapState.execute, done]
      rfl
    rw [List.map_cons, Machine.after,
      if_pos (show machine.permitted state (.deallocate block.pointer) from owned), executed]
    exact freed

/-- What an allocation carves off, the deallocation of its block joins again. -/
theorem undo {size pointer : Nat} {after : MemoryAllocator} (holds : state.Holds span regions)
    (valid : HeapSpan span)
    (small : size + sizeofNode < 2 ^ 32)
    (done : state.allocator.allocate size = .ok (pointer, after)) :
    ∃ final, after.deallocate pointer = .ok final ∧ final.freelist = state.allocator.freelist ∧
      final.freeList = state.allocator.freeList := by
  obtain ⟨larger, middle, kept⟩ := holds.allocate valid small done
  have created : (⟨pointer, size⟩ : Block) ∈ (⟨pointer, size⟩ :: state.live : List Block) :=
    List.mem_cons_self
  obtain ⟨final, last, freed, settled, keeps⟩ := middle.deallocate valid (.inr ⟨_, created, rfl⟩)
  have fresh : pointer ∉ state.live.map Block.pointer := (List.nodup_cons.mp middle.nodup).1
  have same : ({ live := ⟨pointer, size⟩ :: state.live, allocator := after } : HeapState).release
    pointer = state.live := by
    refine (List.filter_cons_of_neg (by simp)).trans (List.filter_eq_self.mpr fun block member => decide_eq_true ?_)
    rintro rfl
    exact fresh (List.mem_map_of_mem member)
  rw [same] at settled
  have survives {block : Nat × Nat} (member : block ∈ state.blocks) :
      block ∈ (⟨final, state.live⟩ : HeapState).blocks := by
    obtain ⟨region, present, live, address, extent⟩ := (holds.mem_blocks valid).mp member
    refine (settled.mem_blocks valid).mpr ⟨region, ?_, live, address, extent⟩
    refine keeps region (kept region present live) live fun clash => fresh ?_
    obtain ⟨owner, owned, named⟩ := List.mem_map.mp member
    obtain ⟨named, _⟩ := Prod.mk.inj named
    exact List.mem_map.mpr ⟨owner, owned, named.trans (address.symm.trans clash)⟩
  have agree (block : Nat × Nat) : block ∈ (⟨final, state.live⟩ : HeapState).blocks ↔
    block ∈ state.blocks := by
    refine ⟨fun member => ?_, survives⟩
    obtain ⟨owner, owned, named⟩ := List.mem_map.mp member
    have before : (owner.pointer, state.blockSize owner.pointer) ∈ state.blocks :=
      List.mem_map_of_mem owned
    obtain ⟨twin, _, sized⟩ := List.mem_map.mp (survives before)
    obtain ⟨pointer, sized⟩ := Prod.mk.inj sized
    rw [pointer] at sized
    rw [← named, sized]
    exact before
  obtain ⟨head, list⟩ := settled.canonical holds valid agree
  exact ⟨final, freed, head, list⟩

end Holds
end HeapState

variable {span : Bytes}

/-- Two runs on a heap that end with the same live blocks end with the same free list; what was
allocated last can be undone; and freeing everything, in any order, brings back the node the heap
started with. -/
theorem free_list_canonical {memory another : Memory}
    {history others : List (HeapState × HeapEvent)} {state other : HeapState}
    (valid : HeapSpan span) (run : HeapState.machine.Run (.initial memory span) history state)
    (also : HeapState.machine.Run (.initial another span) others other) :
    ((∀ block, block ∈ state.blocks ↔ block ∈ other.blocks) →
      state.allocator.freelist = other.allocator.freelist ∧
      state.allocator.freeList = other.allocator.freeList) ∧
    (∀ left ∈ state.allocator.freeList, ∀ right ∈ state.allocator.freeList,
      left.1 + sizeofNode + left.2 ≠ right.1) ∧
    (∀ order : List Nat, order.Perm (state.live.map Block.pointer) →
      ∃ final, HeapState.machine.after state (order.map .deallocate) = some final ∧
        final.allocator.freeList = [(span.data, span.size - sizeofNode)]) ∧
    ∀ size pointer after, size + sizeofNode < 2 ^ 32 →
    state.allocator.allocate size = .ok (pointer, after) →
      ∃ final, after.deallocate pointer = .ok final ∧ final.freelist = state.allocator.freelist ∧
        final.freeList = state.allocator.freeList := by
  obtain ⟨regions, holds⟩ := HeapState.valid_of_reachable valid ⟨history, run⟩
  obtain ⟨twins, twin⟩ := HeapState.valid_of_reachable valid ⟨others, also⟩
  refine ⟨holds.canonical twin valid,
    fun left first right second => holds.separate valid first second, ?_,
    fun size pointer after small done => holds.undo valid small done⟩
  intro order all
  obtain ⟨final, rest, freed, settled, empty⟩ := holds.free_all valid all
  have start := HeapState.Holds.initial memory valid
  have nothing (block : Nat × Nat) : block ∈ final.blocks ↔
    block ∈ (HeapState.initial memory span).blocks := by
    have started : (HeapState.initial memory span).live = [] := rfl
    rw [HeapState.blocks, HeapState.blocks, empty, started, List.map_nil, List.map_nil]
  refine ⟨final, freed, (settled.canonical start valid nothing).2.trans (start.listed valid)⟩

theorem free_list_canonical_small : ∃ first second,
    HeapState.machine.after (.initial (fun _ => 0) ⟨2 ^ 29, 64⟩) [.allocate 5, .allocate 4,
      .deallocate (2 ^ 29 + 8)] = some first ∧
    HeapState.machine.after (.initial (fun _ => 1) ⟨2 ^ 29, 64⟩)
      [.allocate 6, .allocate 3, .allocate 1, .deallocate (2 ^ 29 + 36),
        .deallocate (2 ^ 29 + 8)] = some second ∧
    first.allocator.freeList = second.allocator.freeList := by
  have valid : HeapSpan ⟨2 ^ 29, 64⟩ := ⟨by decide, by decide, by decide, by decide, by decide⟩
  have played : (HeapState.machine.after (.initial (fun _ => 0) ⟨2 ^ 29, 64⟩)
      [.allocate 5, .allocate 4, .deallocate (2 ^ 29 + 8)]).map HeapState.blocks =
        some [(2 ^ 29 + 24, 4)] := by decide +kernel
  have replayed : (HeapState.machine.after (.initial (fun _ => 1) ⟨2 ^ 29, 64⟩)
      [.allocate 6, .allocate 3, .allocate 1, .deallocate (2 ^ 29 + 36),
        .deallocate (2 ^ 29 + 8)]).map HeapState.blocks =
        some [(2 ^ 29 + 24, 4)] := by decide +kernel
  obtain ⟨first, executed, blocks⟩ := Option.map_eq_some_iff.mp played
  obtain ⟨second, reexecuted, same⟩ := Option.map_eq_some_iff.mp replayed
  obtain ⟨history, run⟩ := Machine.reachable_after executed
  obtain ⟨others, also⟩ := Machine.reachable_after reexecuted
  obtain ⟨canonical, _⟩ := free_list_canonical valid run also
  refine ⟨first, second, executed, reexecuted, (canonical fun block => ?_).2⟩
  rw [blocks, same]

end PicoOs.Std
