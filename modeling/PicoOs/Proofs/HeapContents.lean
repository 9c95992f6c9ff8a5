import PicoOs.Proofs.HeapCanonical

/-! What the heap does to the bytes of its users. The headers that allocation and
deallocation write lie in free regions or in front of the block that is released,
so every other block keeps its bytes; `reallocate` carries those of its block along. -/

namespace PicoOs.Std
open Library MemoryAllocator

variable {span : Bytes} {heap after : MemoryAllocator} {regions : List Region}
  {region other : Region}
  {state : HeapState} {block : Block}

theorem lastNode_mem (nodes : List Nat) : lastNode nodes = 0 ∨ lastNode nodes ∈ nodes := by
  rcases List.eq_nil_or_concat nodes with rfl | ⟨init, last, rfl⟩
  · exact .inl lastNode_nil
  · rw [List.concat_eq_append, lastNode_concat]
    exact .inr (by simp)

namespace MemoryAllocator

/-- The loop of `allocate` gives up only after an entry that is too small at every node. -/
theorem allocateLoop_exhausts {size fuel previous entry : Nat} {nodes : List Nat}
    (linked : Segment heap.nodeNext entry nodes 0) (nonnull : ∀ node ∈ nodes, node ≠ 0)
    (stopped : allocateLoop size fuel heap previous entry = .error .verifyNotReached) :
    ∀ node ∈ nodes, heap.nodeSize node < wrap (size + sizeofNode) := by
  induction nodes generalizing fuel previous entry with
  | nil => simp
  | cons node rest ih =>
    obtain ⟨rfl, remaining⟩ := linked
    cases fuel with
    | zero => cases stopped
    | succ fuel =>
      rw [allocateLoop, if_neg (nonnull entry List.mem_cons_self)] at stopped
      split at stopped
      next => split at stopped <;> cases stopped
      next small =>
        have later := ih remaining (fun other member => nonnull other (List.mem_cons_of_mem _ member)) stopped
        exact List.forall_mem_cons.mpr ⟨Nat.not_le.mp small, later⟩

/-- The loop of `deallocate` hands the target to `insert`, behind some node of the free list. -/
theorem deallocateLoop_inserts {target fuel previous entry : Nat} {nodes : List Nat}
    (linked : Segment heap.nodeNext entry nodes 0)
    (found : deallocateLoop target fuel heap previous entry = .ok (some after)) :
    ∃ skipped node rest, nodes = skipped ++ node :: rest ∧
    after = heap.insert target (skipped.getLastD previous) node := by
  induction nodes generalizing fuel previous entry with
  | nil =>
    cases fuel with
    | zero => cases found
    | succ fuel => simp [deallocateLoop, show entry = 0 from linked] at found
  | cons node rest ih =>
    obtain ⟨rfl, remaining⟩ := linked
    cases fuel with
    | zero => cases found
    | succ fuel =>
      simp only [deallocateLoop] at found
      split at found
      · cases found
      split at found
      · cases found
        exact ⟨[], entry, rest, rfl, rfl⟩
      · obtain ⟨skipped, node, final, rfl, same⟩ := ih remaining found
        exact ⟨entry :: skipped, node, final, rfl, by rw [List.getLastD_cons]; exact same⟩

section Frames
variable {start stop entry target previous next size value : Nat}

def Outside (start stop entry : Nat) : Prop := stop ≤ entry ∨ entry + sizeofNode ≤ start

theorem link_agree (outside : previous = 0 ∨ Outside start stop previous) :
    Memory.Agree heap.memory (heap.link previous value).memory start stop := by
  unfold link
  split
  next present => exact setNext_agree heap (outside.resolve_left present)
  next => exact fun _ _ _ => rfl

private theorem split_agree (address : wrap (nodeData entry + roundToWord size) = next)
    (first : Outside start stop entry)
    (second : Outside start stop next) (third : previous = 0 ∨ Outside start stop previous) :
    Memory.Agree heap.memory (heap.split size previous entry).memory start stop := by
  rw [split_eq address]
  refine Memory.Agree.trans ?_ (setSize_agree _ first)
  refine Memory.Agree.trans ?_ (setNext_agree _ first)
  refine Memory.Agree.trans ?_ (link_agree third)
  exact (setNext_agree _ second).trans (setSize_agree _ second)

private theorem insert_agree (first : Outside start stop target)
    (second : previous = 0 ∨ Outside start stop previous) :
    Memory.Agree heap.memory (heap.insert target previous entry).memory start stop := by
  have absorbs (heap : MemoryAllocator) (left right : Nat) (outside : Outside start stop left) :
      Memory.Agree heap.memory (heap.absorb left right).memory start stop :=
        setSize_agree heap outside
  unfold MemoryAllocator.insert
  split
  next joins =>
    have behind := second.resolve_left joins.1
    refine (absorbs heap previous target behind).trans ?_
    simp only
    split
    · exact (absorbs _ previous entry behind).trans (setNext_agree _ behind)
    · exact fun _ _ _ => rfl
  next =>
    refine Memory.Agree.trans ?_ (link_agree second)
    split
    · exact (absorbs heap target entry first).trans (setNext_agree _ first)
    · exact setNext_agree heap first

end Frames
end MemoryAllocator

namespace Layout

theorem outside (layout : Layout span heap regions) (first : region ∈ regions)
    (second : other ∈ regions)
    (different : region ≠ other) :
    Outside other.address (other.address + sizeofNode + other.size) region.address := by
  rcases layout.disjoint first second with same | before | behind
  · exact absurd same different
  · exact .inr (by omega)
  · exact .inl (by omega)

theorem outside_free (layout : Layout span heap regions) (present : other ∈ regions)
    (live : other.live = true) {node : Nat}
    (member : node ∈ freeNodes regions) :
    Outside other.address (other.address + sizeofNode + other.size) node := by
  obtain ⟨region, inside, free, rfl⟩ := mem_freeNodes.mp member
  refine layout.outside inside present ?_
  rintro rfl
  rw [live] at free
  cases free

/-- Allocation writes into the region it cuts and into the free node in front of it. -/
theorem allocate_keeps {size pointer : Nat} (layout : Layout span heap regions)
    (valid : HeapSpan span)
    (small : size + sizeofNode < 2 ^ 32) (done : heap.allocate size = .ok (pointer, after))
    (present : other ∈ regions)
    (live : other.live = true) :
    Memory.Agree heap.memory after.memory other.address (other.address + sizeofNode +
      other.size) := by
  obtain ⟨skipped, node, rest, shape, fits, rfl, rfl⟩ := allocateLoop_finds layout.links done
  have free : node ∈ freeNodes regions := by simp [shape]
  have before : lastNode skipped = 0 ∨ lastNode skipped ∈ freeNodes regions :=
    (lastNode_mem skipped).imp_right fun member => by simp [shape, member]
  obtain ⟨region, member, unused, rfl⟩ := mem_freeNodes.mp free
  have inside := layout.bounds member
  have highest := valid.fits
  obtain ⟨_, near, word⟩ := roundToWord_eq small
  obtain ⟨alignedAddress, alignedSize⟩ := layout.words region member
  rw [layout.sizes region member, wrap_of_lt small] at fits
  have address : wrap (nodeData region.address + roundToWord size) = region.address + sizeofNode +
    roundToWord size := by
    unfold nodeData wrap sizeofNode at *
    omega
  refine split_agree address (layout.outside_free present live free) ?_
    (before.imp_right (layout.outside_free present live))
  have different : region ≠ other := by
    rintro rfl
    rw [live] at unused
    cases unused
  unfold Outside sizeofNode at *
  rcases layout.disjoint member present with same | lower | higher
  · exact absurd same different
  · unfold sizeofNode at lower
    omega
  · unfold sizeofNode at higher
    omega

/-- Deallocation writes into the header of the region it releases and into the free node in front of
it. -/
theorem deallocate_keeps (layout : Layout span heap regions) (valid : HeapSpan span)
    (member : region ∈ regions)
    (done : heap.deallocateWalk (region.address + sizeofNode) = .ok (some after))
    (present : other ∈ regions)
    (live : other.live = true) (different : region ≠ other) :
    Memory.Agree heap.memory after.memory other.address (other.address + sizeofNode +
      other.size) := by
  have inside := layout.bounds member
  have highest := valid.fits
  have target : minus (region.address + sizeofNode) sizeofNode = region.address := by
    unfold minus sizeofNode at *
    omega
  rw [MemoryAllocator.deallocateWalk, target] at done
  obtain ⟨skipped, node, rest, shape, rfl⟩ := deallocateLoop_inserts layout.links done
  have before : lastNode skipped = 0 ∨ lastNode skipped ∈ freeNodes regions :=
    (lastNode_mem skipped).imp_right fun member => by simp [shape, member]
  exact insert_agree (layout.outside member present different)
    (before.imp_right (layout.outside_free present live))

end Layout

namespace HeapState

def Keeps (state : HeapState) (after : MemoryAllocator) (block : Block) : Prop :=
  Memory.Agree state.allocator.memory after.memory block.pointer
    (block.pointer + state.blockSize block.pointer)

namespace Holds

theorem allocate_keeps {size pointer : Nat} (holds : state.Holds span regions)
    (valid : HeapSpan span)
    (small : size + sizeofNode < 2 ^ 32)
    (done : state.allocator.allocate size = .ok (pointer, after))
    (member : block ∈ state.live) : state.Keeps after block := by
  obtain ⟨_, region, _, shape, live, same, _, _, extent⟩ := holds.region_of valid member
  have kept := holds.layout.allocate_keeps valid small done
    (show region ∈ regions by simp [shape]) live
  rw [Keeps, extent, same]
  exact kept.mono (Nat.le_add_right _ _) (Nat.le_refl _)

theorem deallocate_keeps {pointer : Nat} (holds : state.Holds span regions) (valid : HeapSpan span)
    (allowed : pointer = 0 ∨ state.owns pointer)
    (done : state.allocator.deallocate pointer = .ok after)
    (member : block ∈ state.live) (different : block.pointer ≠ pointer) :
    state.Keeps after block := by
  rcases allowed with rfl | ⟨released, owned, rfl⟩
  · rw [MemoryAllocator.deallocate, if_pos rfl] at done
    cases done
    exact fun _ _ _ => rfl
  obtain ⟨final, _, walked, _⟩ := holds.release valid owned
  rw [MemoryAllocator.deallocate, if_neg (holds.pointer_nonnull valid owned), walked] at done
  cases done
  obtain ⟨_, target, _, shape, _, own, _⟩ := holds.region_of valid owned
  obtain ⟨_, region, _, split, live, same, _, _, extent⟩ := holds.region_of valid member
  have kept := holds.layout.deallocate_keeps valid
    (show target ∈ regions by simp [shape]) (own ▸ walked)
    (show region ∈ regions by simp [split]) live (fun equal => different (by rw [same, own, equal]))
  rw [Keeps, extent, same]
  exact kept.mono (Nat.le_add_right _ _) (Nat.le_refl _)

end Holds

/-- No free node has room for a block of the size and the header of what is left. -/
def Exhausted (state : HeapState) (size : Nat) : Prop :=
  ∀ node ∈ state.allocator.freeList, node.2 < wrap (size + sizeofNode)

/-- What the owner of a block has after `reallocate`: a block that is large enough, with
the old bytes, in a heap where nobody else lost anything. -/
structure Carries (span : Bytes) (state : HeapState) (pointer size fresh : Nat)
    (after : MemoryAllocator) : Prop where
  sound : ∃ nodes, Sound span ⟨after, ⟨fresh, size⟩ :: state.release pointer⟩ nodes
  capacity : size ≤ after.nodeSize (minus fresh sizeofNode)
  contents : ∀ index < min size (state.blockSize pointer),
    after.memory (fresh + index) = state.allocator.memory (pointer + index)
  others : ∀ block ∈ state.live, block.pointer ≠ pointer → state.Keeps after block

namespace Holds

theorem allocate_fault {size : Nat} {fault : HeapFault} (holds : state.Holds span regions)
    (valid : HeapSpan span)
    (stopped : state.allocator.allocate size = .error fault) :
    fault = .verifyNotReached ∧ state.Exhausted size := by
  obtain rfl := holds.layout.allocate_fault valid stopped
  refine ⟨rfl, ?_⟩
  intro node member
  rw [holds.listed valid] at member
  obtain ⟨region, present, rfl⟩ := List.mem_map.mp member
  obtain ⟨inside, unused⟩ := List.mem_filter.mp present
  have free : region.address ∈ freeNodes regions := List.mem_map_of_mem present
  have small := allocateLoop_exhausts holds.layout.links (fun _ => holds.layout.nonnull valid)
    stopped region.address free
  exact holds.layout.sizes region inside ▸ small

private theorem apart {other : Block} (holds : state.Holds span regions) (valid : HeapSpan span)
    (first : block ∈ state.live)
    (second : other ∈ state.live) (different : block.pointer ≠ other.pointer) :
    block.pointer + state.blockSize block.pointer ≤ other.pointer ∨
      other.pointer + state.blockSize other.pointer ≤ block.pointer := by
  obtain ⟨_, region, _, shape, _, same, _, _, size⟩ := holds.region_of valid first
  obtain ⟨_, place, _, split, _, also, _, _, extent⟩ := holds.region_of valid second
  have regionsApart := holds.layout.disjoint (show region ∈ regions by simp [shape]) (show place ∈ regions by simp [split])
  rw [size, extent]
  rcases regionsApart with equal | before | behind
  · exact absurd (by rw [same, also, equal]) different
  · exact .inl (by omega)
  · exact .inr (by omega)

theorem reallocated {pointer size fresh : Nat} (holds : state.Holds span regions)
    (valid : HeapSpan span)
    (owned : state.owns pointer) (small : size + sizeofNode < 2 ^ 32)
    (done : state.allocator.reallocate pointer size = .ok (fresh, after)) :
    ∃ nodes, Sound span ⟨after, ⟨fresh, size⟩ :: state.release pointer⟩ nodes := by
  rcases holds.reallocate valid owned small with failed | ⟨_, _, _, returned, next⟩
  · rw [done] at failed
    cases failed
  · rw [done] at returned
    cases returned
    exact ⟨_, next.sound valid⟩

/-- A block that moves: its bytes are copied before the old place is released. -/
theorem grows {size fresh : Nat} (holds : state.Holds span regions) (valid : HeapSpan span)
    (member : block ∈ state.live) (grows : state.blockSize block.pointer ≤ size)
    (small : size + sizeofNode < 2 ^ 32)
    (allocated : state.allocator.allocate size = .ok (fresh, heap)) :
    ∃ after, state.allocator.reallocate block.pointer size = .ok (fresh, after) ∧
      state.Carries span block.pointer size fresh after := by
  obtain ⟨copied, larger, rfl, holdsCopied, others⟩ := holds.moved valid grows small allocated
  obtain ⟨different, count, _⟩ := others block member
  have owned : ∃ other ∈ (⟨fresh, size⟩ :: state.live : List Block), other.pointer =
    block.pointer :=
    ⟨block, List.mem_cons_of_mem _ member, rfl⟩
  obtain ⟨after, final, freed, _⟩ := holdsCopied.deallocate valid (.inr owned)
  have moves : ¬ size < state.allocator.nodeSize (minus block.pointer sizeofNode) :=
    Nat.not_lt.mpr grows
  have done : state.allocator.reallocate block.pointer size = .ok (fresh, after) := by
    rw [MemoryAllocator.reallocate, if_neg moves, allocated]
    simp only [bind, Except.bind, count, freed]
  obtain ⟨nodes, sound⟩ := holds.reallocated valid ⟨block, member, rfl⟩ small done
  have created : (⟨fresh, size⟩ : Block) ∈ (⟨fresh, size⟩ :: state.live : List Block) :=
    List.mem_cons_self
  obtain ⟨_, target, _, _, _, _, fits, _, room⟩ := holdsCopied.region_of valid created
  refine ⟨after, done, ⟨nodes, sound⟩, sound.payload ⟨fresh, size⟩ List.mem_cons_self, ?_, ?_⟩
  · intro index below
    have old : index < state.blockSize block.pointer :=
      Nat.lt_of_lt_of_le below (Nat.min_le_right _ _)
    have inside : index < size := Nat.lt_of_lt_of_le below (Nat.min_le_left _ _)
    have kept := holdsCopied.deallocate_keeps valid (.inr owned) freed created different
    have target := kept (fresh + index) (Nat.le_add_right _ _) (by simp only at room fits ⊢; omega)
    have source := holds.allocate_keeps valid small allocated member (block.pointer + index)
      (Nat.le_add_right _ _)
      (Nat.add_lt_add_left old _)
    rw [target, ← source]
    simp only [Memory.copy]
    rw [if_pos (by omega), Nat.add_sub_cancel_left]
  · intro other present distinct
    obtain ⟨fromFresh, _, same⟩ := others other present
    have untouched := holds.allocate_keeps valid small allocated present
    have kept := holdsCopied.deallocate_keeps valid (.inr owned) freed
      (List.mem_cons_of_mem _ present) distinct
    have separate := holdsCopied.apart valid created (List.mem_cons_of_mem _ present) fromFresh
    rw [Keeps, same] at kept
    rw [same] at separate
    refine untouched.trans (Memory.Agree.trans (Memory.copy_agree _ ?_) kept)
    simp only at room fits separate ⊢
    omega

/-- Either the block carries on with its bytes, or no node of the free list could take it. -/
theorem carries {pointer size : Nat} (holds : state.Holds span regions) (valid : HeapSpan span)
    (owned : state.owns pointer) (small : size + sizeofNode < 2 ^ 32) :
    (∃ fresh after, state.allocator.reallocate pointer size = .ok (fresh, after) ∧
      state.Carries span pointer size fresh after) ∨
      state.allocator.reallocate pointer size = .error .verifyNotReached ∧
      state.blockSize pointer ≤ size ∧
        state.Exhausted size := by
  by_cases shrinks : size < state.blockSize pointer
  · have stays : state.allocator.reallocate pointer size = .ok (pointer, state.allocator) :=
      if_pos shrinks
    refine .inl ⟨pointer, state.allocator, stays, holds.reallocated valid owned small stays,
      Nat.le_of_lt shrinks, ?_, ?_⟩
    · exact fun _ _ => rfl
    · exact fun _ _ _ _ _ _ => rfl
  have larger := Nat.le_of_not_lt shrinks
  obtain ⟨block, member, rfl⟩ := owned
  cases allocated : state.allocator.allocate size with
  | ok result => exact .inl ⟨result.1, holds.grows valid member larger small allocated⟩
  | error fault =>
    obtain ⟨rfl, exhausted⟩ := holds.allocate_fault valid allocated
    have moves : ¬ size < state.allocator.nodeSize (minus block.pointer sizeofNode) := shrinks
    refine .inr ⟨?_, larger, exhausted⟩
    rw [MemoryAllocator.reallocate, if_neg moves, allocated]
    rfl

end Holds
end HeapState

/-- In every reachable heap, calls leave the bytes of the blocks they are not about
alone, and a block that is resized keeps its bytes. -/
theorem heap_contents {memory : Memory} {history : List (HeapState × HeapEvent)}
    (valid : HeapSpan span)
    (run : HeapState.machine.Run (.initial memory span) history state) :
    (∀ size pointer after, size + sizeofNode < 2 ^ 32 →
      state.allocator.allocate size = .ok (pointer, after) →
      ∀ block ∈ state.live, state.Keeps after block) ∧
    (∀ pointer after, pointer = 0 ∨ state.owns pointer →
      state.allocator.deallocate pointer = .ok after →
      ∀ block ∈ state.live, block.pointer ≠ pointer → state.Keeps after block) ∧
    ∀ pointer size, state.owns pointer → size + sizeofNode < 2 ^ 32 →
      (∃ fresh after, state.allocator.reallocate pointer size = .ok (fresh, after) ∧
        state.Carries span pointer size fresh after) ∨
      state.allocator.reallocate pointer size = .error .verifyNotReached ∧
      state.blockSize pointer ≤ size ∧
        state.Exhausted size := by
  obtain ⟨regions, holds⟩ := HeapState.valid_of_reachable valid ⟨history, run⟩
  refine ⟨?_, ?_, fun pointer size owned small => holds.carries valid owned small⟩
  · exact fun size pointer after small done block member =>
      holds.allocate_keeps valid small done member
  · exact fun pointer after allowed done block member different =>
      holds.deallocate_keeps valid allowed done member different

theorem heap_contents_small : ∃ state fresh after,
    HeapState.machine.after (.initial (fun _ => 0) ⟨2 ^ 29, 64⟩) [.allocate 5, .allocate 4,
      .write (2 ^ 29 + 8) 7] = some state ∧
    state.allocator.reallocate (2 ^ 29 + 8) 16 = .ok (fresh, after) ∧
    state.Carries ⟨2 ^ 29, 64⟩ (2 ^ 29 + 8) 16 fresh after := by
  have valid : HeapSpan ⟨2 ^ 29, 64⟩ := ⟨by decide, by decide, by decide, by decide, by decide⟩
  have played : (HeapState.machine.after (.initial (fun _ => 0) ⟨2 ^ 29, 64⟩)
      [.allocate 5, .allocate 4, .write (2 ^ 29 + 8) 7]).map (fun state =>
        (decide (state.owns (2 ^ 29 + 8)),
        (state.allocator.reallocate (2 ^ 29 + 8) 16).toBool)) = some (true, true) := by
    decide +kernel
  obtain ⟨state, executed, seen⟩ := Option.map_eq_some_iff.mp played
  obtain ⟨owned, returned⟩ := Prod.mk.inj seen
  obtain ⟨history, run⟩ := Machine.reachable_after executed
  obtain ⟨_, _, resizes⟩ := heap_contents valid run
  rcases resizes (2 ^ 29 + 8) 16 (of_decide_eq_true owned)
    (by decide) with ⟨fresh, after, done, carries⟩ | ⟨stopped, _⟩
  · exact ⟨state, fresh, after, executed, done, carries⟩
  · rw [stopped] at returned
    cases returned

end PicoOs.Std
