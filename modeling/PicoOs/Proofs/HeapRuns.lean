import PicoOs.Proofs.HeapRelease

/-! Whole runs of the heap. The memory always lays out some list of regions whose
live ones are the blocks the users own; every property of the heap is read off it. -/

namespace PicoOs.Std
open Library MemoryAllocator

variable {span : Bytes} {heap after : MemoryAllocator} {regions : List Region}
  {region other : Region}
  {state : HeapState}

namespace Layout

private theorem payload {memory : Memory} {start stop : Nat} (layout : Layout span heap regions)
    (member : region ∈ regions)
    (above : region.address + sizeofNode ≤ start)
    (below : stop ≤ region.address + sizeofNode + region.size)
    (agree : ∀ {first last}, last ≤ start ∨ stop ≤ first →
      Memory.Agree heap.memory memory first last) :
    Layout span { heap with memory } regions := by
  have header : ∀ other ∈ regions,
      Memory.Agree heap.memory memory other.address (other.address + sizeofNode) := by
    intro other present
    apply agree
    rcases layout.disjoint present member with rfl | before | after
    · exact .inl above
    · exact .inl (by omega)
    · exact .inr (by omega)
  refine ⟨layout.within, layout.tiles, layout.words, ?_, ?_, layout.top⟩
  · intro other present
    have same := (header other present).load (Nat.le_refl _) (by unfold sizeofNode; omega)
    exact same.trans (layout.sizes other present)
  · refine layout.links.congr fun node free => ?_
    obtain ⟨other, present, _, rfl⟩ := mem_freeNodes.mp free
    exact (header other present).load (Nat.le_add_right _ _) (by unfold sizeofNode; omega)

private theorem allocate {size pointer : Nat} (layout : Layout span heap regions)
    (valid : HeapSpan span)
    (small : size + sizeofNode < 2 ^ 32) (done : heap.allocate size = .ok (pointer, after)) :
    ∃ left region right rest, regions = left ++ region :: right ∧ region.live = false ∧
    rest.live = false ∧
      pointer = region.address + sizeofNode ∧
      Layout span after (left ++ [⟨region.address, roundToWord size, true⟩, rest] ++ right) := by
  obtain ⟨skipped, node, rest, shape, fits, rfl, rfl⟩ := allocateLoop_finds layout.links done
  obtain ⟨left, region, right, rfl, rfl, free, rfl⟩ := freeNodes_split shape
  have member : region ∈ left ++ region :: right := by simp
  have inside := layout.bounds member
  have highest := valid.fits
  rw [layout.sizes region member, wrap_of_lt small] at fits
  have address : nodeData region.address = region.address + sizeofNode := by
    unfold nodeData wrap
    unfold sizeofNode at *
    omega
  exact ⟨left, region, right, _, rfl, free, rfl, address, layout.split valid free small fits⟩

theorem allocate_fault {size : Nat} {fault : HeapFault} (layout : Layout span heap regions)
    (valid : HeapSpan span)
    (stopped : heap.allocate size = .error fault) : fault = .verifyNotReached := by
  have enough := layout.few_nodes valid
  rw [← layout.within] at enough
  refine allocateLoop_fault layout.links enough ?_ stopped
  intro node member
  obtain ⟨region, present, _, rfl⟩ := mem_freeNodes.mp member
  have word := layout.words region present
  unfold nodeData wrap sizeofNode
  omega

end Layout

/-- The memory lays out the regions, no two free ones are adjacent, and the live ones are the blocks
of the users. -/
structure HeapState.Holds (span : Bytes) (state : HeapState) (regions : List Region) : Prop where
  layout : Layout span state.allocator regions
  maximal : Maximal Region.live regions
  pointers : (state.live.map Block.pointer).Perm ((liveNodes regions).map (· + sizeofNode))
  requests : ∀ block ∈ state.live, ∃ region ∈ regions, region.live = true ∧
    block.pointer = region.address + sizeofNode ∧ block.requested ≤ region.size

namespace HeapState.Holds
variable {block : Block}

theorem initial (memory : Memory) (valid : HeapSpan span) :
    Holds span (.initial memory span) [⟨span.data, span.size - sizeofNode, false⟩] := by
  have header : sizeofNode = 8 := rfl
  have room := valid.header
  have highest := valid.fits
  have positive := valid.nonnull
  have aligned := valid.aligned
  have words := valid.words
  refine ⟨⟨rfl, ?_, ?_, ?_, ?_, rfl⟩, .singleton _, .refl _, by simp [HeapState.initial]⟩
  · refine ⟨rfl, ?_⟩
    simp only [Tiles, Region.extent]
    omega
  · intro region member
    obtain rfl := List.mem_singleton.mp member
    simp only
    omega
  · intro region member
    obtain rfl := List.mem_singleton.mp member
    have size : (HeapState.initial memory span).allocator.nodeSize span.data =
        minus span.size sizeofNode % 2 ^ 32 := by
      rw [HeapState.initial, construct, nodeSize_setNext_spaced _ (.inl rfl), nodeSize_setSize]
    rw [size, minus_of_le (by omega) room]
    exact Nat.mod_eq_of_lt (by omega)
  · exact ⟨rfl, nodeNext_setNext _⟩

theorem nodup (holds : state.Holds span regions) : (state.live.map Block.pointer).Nodup := by
  have unique : ((liveNodes regions).map (· + sizeofNode)).Nodup := by
    refine List.pairwise_map.mpr (List.pairwise_map.mpr ((holds.layout.tiles.ordered.filter _).imp ?_))
    intro first second before
    unfold Region.extent sizeofNode at before
    omega
  exact holds.pointers.nodup_iff.mpr unique

theorem release_pointers (holds : state.Holds span regions) (member : block ∈ state.live) :
    (state.live.map Block.pointer).Perm (block.pointer :: (state.release block.pointer).map Block.pointer) := by
  have present : block.pointer ∈ state.live.map Block.pointer := List.mem_map_of_mem member
  have without := List.perm_cons_erase present
  rw [holds.nodup.erase_eq_filter, List.filter_map] at without
  exact without.trans (.of_eq (by simp [release, Function.comp_def, bne, BEq.beq]))

/-- The region of a live block, with what the block's pointer says about it. -/
theorem region_of (holds : state.Holds span regions) (valid : HeapSpan span)
    (member : block ∈ state.live) :
    ∃ left region right, regions = left ++ [region] ++ right ∧ region.live = true ∧
      block.pointer = region.address + sizeofNode ∧ block.requested ≤ region.size ∧
      minus block.pointer sizeofNode = region.address ∧
      state.blockSize block.pointer = region.size := by
  obtain ⟨region, present, live, pointer, fits⟩ := holds.requests block member
  have inside := holds.layout.bounds present
  have highest := valid.fits
  have entry : minus block.pointer sizeofNode = region.address := by
    unfold minus
    unfold sizeofNode at *
    omega
  obtain ⟨left, right, rfl⟩ := List.append_of_mem present
  refine ⟨left, region, right, by simp, live, pointer, fits, entry, ?_⟩
  rw [blockSize, entry, holds.layout.sizes region present]

theorem allocate {size pointer : Nat} (holds : state.Holds span regions) (valid : HeapSpan span)
    (small : size + sizeofNode < 2 ^ 32)
    (done : state.allocator.allocate size = .ok (pointer, after)) :
    ∃ final, Holds span ⟨after, ⟨pointer, size⟩ :: state.live⟩ final ∧
      ∀ other ∈ regions, other.live = true → other ∈ final := by
  obtain ⟨left, region, right, rest, rfl, free, restFree, rfl, layout⟩ :=
    holds.layout.allocate valid small done
  have kept : ∀ other ∈ left ++ region :: right, other.live = true →
      other ∈ left ++ [⟨region.address, roundToWord size, true⟩, rest] ++ right := by
    intro other present live
    simp only [List.mem_append, List.mem_cons] at present ⊢
    rcases present with before | rfl | behind
    · simp [before]
    · rw [free] at live
      cases live
    · simp [behind]
  refine ⟨_, ⟨layout, ?_, ?_, ?_⟩, kept⟩
  · obtain ⟨below, above, _, starts⟩ := holds.maximal.beside free
    have tail : Maximal Region.live (rest :: right) :=
      above.cons fun other first => Or.inr (starts other first)
    have front : Maximal Region.live (left ++ [⟨region.address, roundToWord size, true⟩]) :=
      List.IsChain.append below (.singleton _) fun other last block single =>
        Or.inr (by obtain rfl := Option.some.inj single; rfl)
    have placed : Maximal Region.live (left ++ [⟨region.address, roundToWord size, true⟩] ++ rest :: right) :=
      List.IsChain.append front tail fun other last first starts => Or.inl (by
        rw [List.getLast?_concat] at last
        obtain rfl := Option.some.inj last
        rfl)
    simpa using placed
  · have pointers := holds.pointers
    simp only [liveNodes, List.filter_append, List.filter_cons, free, restFree,
      List.map_append, List.map_cons,
      List.filter_nil] at pointers ⊢
    exact (pointers.cons _).trans (by simpa using List.perm_middle.symm)
  · intro block member
    rcases List.mem_cons.mp member with rfl | earlier
    · exact ⟨⟨region.address, roundToWord size, true⟩, by simp, rfl, rfl, (roundToWord_eq small).1⟩
    · obtain ⟨other, present, live, pointer, fits⟩ := holds.requests block earlier
      exact ⟨other, kept other present live, live, pointer, fits⟩

theorem release (holds : state.Holds span regions) (valid : HeapSpan span)
    (member : block ∈ state.live) :
    ∃ after final, state.allocator.deallocateWalk block.pointer = .ok (some after) ∧
      Holds span ⟨after, state.release block.pointer⟩ final ∧
        ∀ other ∈ regions, other.live = true → other.address + sizeofNode ≠ block.pointer →
        other ∈ final := by
  obtain ⟨left, region, right, rfl, live, pointer, _⟩ := holds.region_of valid member
  obtain ⟨after, final, done, released, layout⟩ := holds.layout.deallocateWalk valid live
  rw [← pointer] at done
  refine ⟨after, final, done, ⟨layout, released.maximal holds.maximal, ?_, ?_⟩,
    fun other present owned differs =>
    released.keeps present owned fun same => differs (same ▸ pointer.symm)⟩
  · have pointers := holds.pointers.trans ((released.live_perm live).map (· + sizeofNode))
    rw [List.map_cons, ← pointer] at pointers
    exact ((holds.release_pointers member).symm.trans pointers).cons_inv
  · intro other survives
    obtain ⟨earlier, different⟩ := List.mem_filter.mp survives
    obtain ⟨place, present, owned, same, fits⟩ := holds.requests other earlier
    refine ⟨place, released.keeps present owned ?_, owned, same, fits⟩
    rintro rfl
    simp [same, pointer] at different

/-- A write into the payload of a live block. -/
theorem payload {memory : Memory} {start stop : Nat} (holds : state.Holds span regions)
    (valid : HeapSpan span)
    (member : block ∈ state.live) (above : block.pointer ≤ start)
    (below : stop ≤ block.pointer + state.blockSize block.pointer)
    (agree : ∀ {first last}, last ≤ start ∨ stop ≤ first →
      Memory.Agree state.allocator.memory memory first last) :
    Holds span { state with allocator.memory := memory } regions := by
  obtain ⟨left, region, right, rfl, _, pointer, _, _, size⟩ := holds.region_of valid member
  rw [size, pointer] at below
  rw [pointer] at above
  exact ⟨holds.layout.payload (by simp) above below agree, holds.maximal, holds.pointers, holds.requests⟩

theorem pointer_nonnull (holds : state.Holds span regions) (valid : HeapSpan span)
    (member : block ∈ state.live) :
    block.pointer ≠ 0 := by
  obtain ⟨_, _, _, _, _, pointer, _⟩ := holds.region_of valid member
  unfold sizeofNode at pointer
  omega

theorem deallocate {pointer : Nat} (holds : state.Holds span regions) (valid : HeapSpan span)
    (allowed : pointer = 0 ∨ state.owns pointer) :
    ∃ after final, state.allocator.deallocate pointer = .ok after ∧
    Holds span ⟨after, state.release pointer⟩ final ∧
      ∀ other ∈ regions, other.live = true → other.address + sizeofNode ≠ pointer →
      other ∈ final := by
  by_cases null : pointer = 0
  · have everything : state.release pointer = state.live := by
      refine List.filter_eq_self.mpr fun block member => decide_eq_true ?_
      exact null ▸ holds.pointer_nonnull valid member
    refine ⟨state.allocator, regions,
      by rw [MemoryAllocator.deallocate, if_pos null], ?_, fun _ present _ _ => present⟩
    rw [everything]
    exact holds
  · obtain ⟨block, member, rfl⟩ := allowed.resolve_left null
    obtain ⟨after, final, done, next, keeps⟩ := holds.release valid member
    exact ⟨after, final, by rw [MemoryAllocator.deallocate, if_neg null, done], next, keeps⟩

/-- The heap with a new block, once the payload of an old one is copied into it. The
other blocks are where they were. -/
theorem moved {size fresh : Nat} (holds : state.Holds span regions) (valid : HeapSpan span)
    (grows : state.blockSize block.pointer ≤ size) (small : size + sizeofNode < 2 ^ 32)
    (done : state.allocator.allocate size = .ok (fresh, heap)) :
    ∃ copied final, copied = (⟨{ heap with memory := heap.memory.copy fresh block.pointer (state.blockSize block.pointer) },
        ⟨fresh, size⟩ :: state.live⟩ : HeapState) ∧ copied.Holds span final ∧
      ∀ other ∈ state.live, fresh ≠ other.pointer ∧
        heap.nodeSize (minus other.pointer sizeofNode) = state.blockSize other.pointer ∧
        copied.blockSize other.pointer = state.blockSize other.pointer := by
  obtain ⟨larger, middle, kept⟩ := holds.allocate valid small done
  have created : (⟨fresh, size⟩ : Block) ∈ (⟨fresh, size⟩ :: state.live : List Block) :=
    List.mem_cons_self
  obtain ⟨_, target, _, _, _, _, fits, _, room⟩ := middle.region_of valid created
  have copied : Holds span ⟨{ heap with memory := heap.memory.copy fresh block.pointer (state.blockSize block.pointer) },
      ⟨fresh, size⟩ :: state.live⟩ larger := by
    refine middle.payload valid created (Nat.le_refl fresh) ?_
      (fun apart => Memory.copy_agree _ apart)
    simp only at room fits ⊢
    omega
  refine ⟨_, larger, rfl, copied, ?_⟩
  intro other present
  obtain ⟨left, region, right, shape, live, _, _, entry, old⟩ := holds.region_of valid present
  have stays : region ∈ larger := kept region (by simp [shape]) live
  refine ⟨?_, ?_, ?_⟩
  · rintro rfl
    exact (List.nodup_cons.mp middle.nodup).1 (List.mem_map.mpr ⟨other, present, rfl⟩)
  · rw [entry, old]
    exact middle.layout.sizes region stays
  · rw [blockSize, entry, old]
    exact copied.layout.sizes region stays

/-- Shrinking in place, or a new block that receives the payload of the old one. -/
theorem reallocate {pointer size : Nat} (holds : state.Holds span regions) (valid : HeapSpan span)
    (owned : state.owns pointer) (small : size + sizeofNode < 2 ^ 32) :
    state.allocator.reallocate pointer size = .error .verifyNotReached ∨
      ∃ newPointer after final, state.allocator.reallocate pointer size = .ok (newPointer, after) ∧
        Holds span ⟨after, ⟨newPointer, size⟩ :: state.release pointer⟩ final := by
  obtain ⟨block, member, rfl⟩ := owned
  by_cases shrinks : size < state.allocator.nodeSize (minus block.pointer sizeofNode)
  · obtain ⟨left, region, right, shape, live, same, _, entry, old⟩ := holds.region_of valid member
    refine .inr ⟨block.pointer, state.allocator, regions, if_pos shrinks, holds.layout,
      holds.maximal, ?_, ?_⟩
    · exact (holds.release_pointers member).symm.trans holds.pointers
    · intro other survives
      rcases List.mem_cons.mp survives with rfl | earlier
      · exact ⟨region, by simp [shape], live, same, Nat.le_of_lt (old ▸ shrinks)⟩
      · exact holds.requests other (List.mem_of_mem_filter earlier)
  · simp only [MemoryAllocator.reallocate, if_neg shrinks]
    cases allocated : state.allocator.allocate size with
    | error fault =>
      obtain rfl := holds.layout.allocate_fault valid allocated
      exact .inl rfl
    | ok result =>
      obtain ⟨fresh, heap⟩ := result
      obtain ⟨_, larger, rfl, copied, others⟩ :=
        holds.moved valid (Nat.le_of_not_lt shrinks) small allocated
      obtain ⟨different, count, _⟩ := others block member
      obtain ⟨final, regions, freed, settled, _⟩ :=
        copied.deallocate valid (.inr ⟨block, by simp [member], rfl⟩)
      have remaining : ({ live := ⟨fresh, size⟩ :: state.live, allocator := heap } : HeapState).release block.pointer =
          ⟨fresh, size⟩ :: state.release block.pointer :=
            List.filter_cons_of_pos (decide_eq_true different)
      refine .inr ⟨fresh, final, regions, ?_, settled.layout, settled.maximal, ?_, ?_⟩
      · simp only [bind, Except.bind, count, freed]
      · exact remaining ▸ settled.pointers
      · exact remaining ▸ settled.requests

private theorem execute {event : HeapEvent} {next : HeapState} (holds : state.Holds span regions)
    (valid : HeapSpan span)
    (allowed : state.permitted event) (executed : state.execute event = .ok next) :
    ∃ final, next.Holds span final := by
  cases event with
  | allocate size =>
    cases done : state.allocator.allocate size with
    | error fault => rw [HeapState.execute, done] at executed; cases executed
    | ok result =>
      rw [HeapState.execute, done] at executed
      cases executed
      obtain ⟨final, next, _⟩ := holds.allocate valid allowed done
      exact ⟨final, next⟩
  | deallocate pointer =>
    obtain ⟨after, final, done, next, _⟩ := holds.deallocate valid allowed
    rw [HeapState.execute, done] at executed
    cases executed
    exact ⟨final, next⟩
  | reallocate pointer size =>
    rcases holds.reallocate valid allowed.1 allowed.2 with failed | ⟨newPointer, after,
      final, done, next⟩
    · rw [HeapState.execute, failed] at executed
      cases executed
    · rw [HeapState.execute, done] at executed
      cases executed
      exact ⟨final, next⟩
  | write address value =>
    cases executed
    obtain ⟨block, member, above, below⟩ := allowed
    exact ⟨regions, holds.payload valid member above below fun apart => Memory.write_agree _ (by omega)⟩

/-- Among the permitted calls only an allocation can fail, and only for lack of a fitting entry. -/
theorem fault {event : HeapEvent} {fault : HeapFault} (holds : state.Holds span regions)
    (valid : HeapSpan span)
    (allowed : state.permitted event) (stopped : state.execute event = .error fault) :
    fault = .verifyNotReached ∧
    ((∃ size, event = .allocate size) ∨ ∃ pointer size, event = .reallocate pointer size) := by
  cases event with
  | allocate size =>
    cases done : state.allocator.allocate size with
    | ok result => rw [HeapState.execute, done] at stopped; cases stopped
    | error reason =>
      rw [HeapState.execute, done] at stopped
      cases stopped
      exact ⟨holds.layout.allocate_fault valid done, .inl ⟨size, rfl⟩⟩
  | deallocate pointer =>
    obtain ⟨after, final, done, next, _⟩ := holds.deallocate valid allowed
    rw [HeapState.execute, done] at stopped
    cases stopped
  | reallocate pointer size =>
    rcases holds.reallocate valid allowed.1 allowed.2 with failed | ⟨newPointer, after,
      final, done, _⟩
    · rw [HeapState.execute, failed] at stopped
      cases stopped
      exact ⟨rfl, .inr ⟨pointer, size, rfl⟩⟩
    · rw [HeapState.execute, done] at stopped
      cases stopped
  | write address value => cases stopped

end HeapState.Holds

/-- What holds between two calls, with the free nodes met when the free list is walked. -/
structure HeapState.Sound (span : Bytes) (state : HeapState) (nodes : List Nat) : Prop where
  links : Segment state.allocator.nodeNext state.allocator.freelist nodes 0
  partition : Partitions id (fun node => sizeofNode + state.allocator.nodeSize node)
    (nodes ++ state.live.map (fun block => minus block.pointer sizeofNode)) span.data
      (span.data + span.size)
  ascending : nodes.Pairwise (· < ·)
  aligned : ∀ block ∈ state.live, block.pointer % 4 = 0
  payload : ∀ block ∈ state.live, block.requested ≤ state.blockSize block.pointer
  above : ∀ block ∈ state.live, ∃ node ∈ nodes, block.pointer + state.blockSize block.pointer ≤ node
  releases : ∀ block ∈ state.live, ∃ after, state.allocator.deallocateWalk block.pointer =
    .ok (some after)

namespace HeapState.Holds

private theorem partition (holds : state.Holds span regions) (valid : HeapSpan span) :
    Partitions id (fun node => sizeofNode + state.allocator.nodeSize node)
      (freeNodes regions ++ state.live.map (fun block => minus block.pointer sizeofNode))
      span.data (span.data + span.size) := by
  have headers : (liveNodes regions).map (fun node => minus (node + sizeofNode) sizeofNode) =
    liveNodes regions := by
    refine (List.map_congr_left ?_).trans (List.map_id _)
    intro node member
    obtain ⟨region, present, _, rfl⟩ := mem_liveNodes.mp member
    have inside := holds.layout.bounds present
    have highest := valid.fits
    unfold minus sizeofNode at *
    simp only [id]
    omega
  have live : (state.live.map (fun block => minus block.pointer sizeofNode)).Perm
    (liveNodes regions) := by
    have mapped := holds.pointers.map (minus · sizeofNode)
    rw [List.map_map, List.map_map] at mapped
    exact headers ▸ mapped
  have divided : (freeNodes regions ++ liveNodes regions).Perm (regions.map Region.address) := by
    have split := List.filter_append_perm (fun region : Region => !region.live) regions
    have named := split.map Region.address
    simpa [freeNodes, liveNodes] using named
  refine ⟨regions.map Region.address, (divided.symm.trans (live.symm.append_left _)), ?_⟩
  exact holds.layout.tiles.map (fun _ _ => rfl) fun region member => by
    rw [holds.layout.sizes region member]
    rfl

theorem sound (holds : state.Holds span regions) (valid : HeapSpan span) :
    state.Sound span (freeNodes regions) where
  links := holds.layout.links
  partition := holds.partition valid
  ascending := holds.layout.ascending.imp fun before => by
    unfold sizeofNode at before
    omega
  aligned block member := by
    obtain ⟨left, region, right, rfl, _, pointer, _⟩ := holds.region_of valid member
    have word := (holds.layout.words region (by simp)).1
    unfold sizeofNode at pointer
    omega
  payload block member := by
    obtain ⟨_, _, _, _, _, _, fits, _, size⟩ := holds.region_of valid member
    exact size ▸ fits
  above block member := by
    obtain ⟨left, region, right, rfl, live, pointer, _, _, size⟩ := holds.region_of valid member
    have layout := holds.layout
    rw [List.append_assoc, List.singleton_append] at layout
    obtain ⟨node, rest, shape, _⟩ := layout.free_above valid live
    have first : node ∈ freeNodes right := by simp [shape]
    obtain ⟨other, present, free, rfl⟩ := mem_freeNodes.mp first
    have higher := layout.above present
    refine ⟨other.address, mem_freeNodes.mpr ⟨other, by simp [present], free, rfl⟩, ?_⟩
    rw [size, pointer]
    omega
  releases block member := by
    obtain ⟨after, _, done, _⟩ := holds.release valid member
    exact ⟨after, done⟩

end HeapState.Holds

def HeapState.Valid (span : Bytes) (state : HeapState) : Prop := ∃ regions, state.Holds span regions

theorem HeapState.valid_of_reachable {memory : Memory} (valid : HeapSpan span)
    (reachable : machine.Reachable (.initial memory span) state) : state.Valid span := by
  have start : (HeapState.initial memory span).Valid span := ⟨_, .initial memory valid⟩
  refine reachable.invariant _ start ?_
  intro state event next earlier allowed executed
  obtain ⟨regions, holds⟩ := earlier
  exact holds.execute valid allowed executed

/-- Every run keeps the heap partitioned into the free list and the live blocks. -/
theorem heap_runs {memory : Memory} {history : List (HeapState × HeapEvent)} (valid : HeapSpan span)
    (run : HeapState.machine.Run (.initial memory span) history state) :
    (∃ nodes, state.Sound span nodes) ∧
      ∀ event fault, state.permitted event → state.execute event = .error fault →
        fault = .verifyNotReached ∧
          ((∃ size, event = .allocate size) ∨ ∃ pointer size,
            event = .reallocate pointer size) := by
  obtain ⟨regions, holds⟩ := HeapState.valid_of_reachable valid ⟨history, run⟩
  exact ⟨⟨_, holds.sound valid⟩,
    fun event fault allowed stopped => holds.fault valid allowed stopped⟩

theorem heap_runs_small :
    ∃ state nodes, HeapState.machine.after (.initial (fun _ => 0) ⟨2 ^ 29, 64⟩)
        [.allocate 5, .allocate 4, .deallocate (2 ^ 29 + 8)] = some state ∧
      state.live = [⟨2 ^ 29 + 24, 4⟩] ∧ state.Sound ⟨2 ^ 29, 64⟩ nodes := by
  have valid : HeapSpan ⟨2 ^ 29, 64⟩ := ⟨by decide, by decide, by decide, by decide, by decide⟩
  have played : (HeapState.machine.after (.initial (fun _ => 0) ⟨2 ^ 29, 64⟩)
      [.allocate 5, .allocate 4, .deallocate (2 ^ 29 + 8)]).map HeapState.live =
        some [⟨2 ^ 29 + 24, 4⟩] := by
    decide +kernel
  obtain ⟨state, executed, live⟩ := Option.map_eq_some_iff.mp played
  obtain ⟨history, run⟩ := Machine.reachable_after executed
  obtain ⟨⟨nodes, sound⟩, _⟩ := heap_runs valid run
  exact ⟨state, nodes, executed, live, sound⟩

end PicoOs.Std
