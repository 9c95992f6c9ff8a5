import PicoOs.Proofs.Isolation

/-! Isolation in whole runs, from the boot of the kernel on. -/

namespace PicoOs.Kernel
open Library Protection MPU PageAllocator

/-- The constructor leaves only naturally aligned blocks if the first one is. -/
theorem constructed_aligned {memory : Memory} {areaStart areaEnd : Nat} {allocator : PageAllocator}
    (aligned : ∀ power, FirstBlock areaStart areaEnd power →
      2 ^ power ∣ roundToAlignment areaStart pageSize)
    (built : PageAllocator.construct memory areaStart areaEnd = .ok allocator) :
    ∃ space, (⟨allocator, []⟩ : PageState).Holds (fun range => range.size ∣ range.base) space := by
  have start : PageAllocator.construct memory areaStart areaEnd =
      discoverFrom areaEnd (maxPower + 1 - pagePower) { memory, blocks := fun _ => 0 }
        (roundToAlignment areaStart pageSize) := rfl
  have pages : roundToAlignment areaStart pageSize % 2 ^ pagePower = 0 := by
    rw [roundToAlignment_page]
    exact Nat.mul_mod_left _ _
  have small : roundToAlignment areaStart pageSize < 2 ^ 32 := by
    rw [roundToAlignment_page]
    exact Nat.lt_of_le_of_lt (Nat.div_mul_le_self _ _) (Nat.mod_lt _ (by decide))
  simp only [FirstBlock] at aligned
  generalize roundToAlignment areaStart pageSize = base at *
  have span : maxPower + 1 - pagePower = 12 := rfl
  rcases @discoverFrom_first { memory, blocks := fun _ => 0 } base areaEnd _ pages
    (Nat.le_of_eq (Nat.add_sub_cancel' (by decide))) with ⟨-, done⟩ | ⟨first, below, fits, larger, done⟩
  · rw [start, done] at built
    cases built
    exact ⟨∅, [], .empty memory⟩
  · have few : pagePower + first ≤ maxPower := by
      unfold pagePower maxPower
      omega
    have whole : 2 ^ (pagePower + first) ∣ base := by
      refine aligned _ ⟨Nat.le_add_right _ _, few, fits, fun power above bounded => ?_⟩
      obtain ⟨steps, rfl⟩ := Nat.exists_eq_add_of_le
        (Nat.le_of_lt (Nat.lt_of_le_of_lt (Nat.le_add_right _ _) above))
      exact Nat.not_le.mp (larger steps (by omega) (by unfold pagePower maxPower at *; omega))
    obtain ⟨after, found, space, found_ok, holds⟩ := construct_aligned memory small few whole
    rw [start, done, found_ok] at built
    cases built
    exact ⟨space, found, holds⟩

private theorem PageState.Holds.allocates {good : PageRange → Prop} {space : Set Nat}
    {state final : PageState} (powers : List Nat)
    (holds : state.Holds good space) (halving : PageRange.Halving good)
    (done : (powers.map PageEvent.allocate).foldlM PageState.execute state = .ok final) :
    final.Holds good space ∧ ∀ range ∈ final.live, range ∈ state.live ∨ range.power ∈ powers := by
  induction powers generalizing state with
  | nil =>
    cases done
    exact ⟨holds, fun _ => .inl⟩
  | cons power powers ih =>
    rw [List.map_cons, List.foldlM_cons] at done
    obtain ⟨middle, executed, rest⟩ := bind_ok.mp done
    have allowed : state.permitted (.allocate power) := trivial
    obtain ⟨kept, sizes⟩ := ih (holds.execute halving allowed executed).1 rest
    rw [PageState.execute] at executed
    obtain ⟨⟨found, allocator⟩, allocated, same⟩ := bind_ok.mp executed
    obtain ⟨free, current⟩ := holds
    obtain ⟨taken, -, rfl, size, -⟩ := current.allocateUp halving allocated
    cases same
    refine ⟨kept, fun range member => ?_⟩
    rcases sizes range member with earlier | later
    · rcases List.mem_cons.mp earlier with rfl | before
      · exact .inr (size ▸ List.mem_cons_self)
      · exact .inl before
    · exact .inr (List.mem_cons_of_mem _ later)

private theorem PageState.Holds.live_nodup {good : PageRange → Prop} {space : Set Nat}
    {state : PageState} (holds : state.Holds good space) :
    state.live.Nodup := by
  obtain ⟨free, current⟩ := holds
  refine (List.pairwise_append.mp current.packs.disjoint).2.1.imp fun {first second}
    disjoint same => ?_
  have inside : first.base ∈ first.cells :=
    PageRange.mem_cells.mpr ⟨Nat.le_refl _, Nat.lt_add_of_pos_right (Nat.two_pow_pos _)⟩
  exact Set.disjoint_left.mp disjoint inside (same ▸ inside)

section
variable {stack : ThreadId → PageRange} {context : ThreadId → FullRegisterContext}

theorem boot_assets (thread : ThreadId) :
    ((State.boot stack context).threads thread).holdings = (if thread < 4 then [stack thread] else []) ∧
      ((State.boot stack context).threads thread).ownedPageRanges = (if thread < 4 then [stack thread] else []) := by
  obtain rfl | rfl | rfl | rfl | large := boot_thread thread
  · exact ⟨rfl, rfl⟩
  · exact ⟨rfl, rfl⟩
  · exact ⟨rfl, rfl⟩
  · exact ⟨rfl, rfl⟩
  · rw [boot_unborn large, if_neg (Nat.not_lt.mpr large)]
    exact ⟨rfl, rfl⟩

private theorem boot_levels (thread : ThreadId) (ordinary : thread ≠ dummyThread)
    (user : ((State.boot stack context).threads thread).privileged = false) :
    ((State.boot stack context).threads thread).point.gone = true := by
  obtain rfl | rfl | rfl | rfl | large := boot_thread thread
  · cases user
  · cases user
  · exact absurd rfl ordinary
  · cases user
  · rw [boot_unborn large]
    rfl

private theorem boot_kernel {thread : ThreadId} (small : thread < 4) :
    ((State.boot stack context).threads thread).point.setUp = true ∧
    ((State.boot stack context).threads thread).point ≠ .userMode := by
  obtain rfl | rfl | rfl | rfl | large := boot_thread thread
  · exact ⟨rfl, nofun⟩
  · exact ⟨rfl, nofun⟩
  · exact ⟨rfl, nofun⟩
  · exact ⟨rfl, nofun⟩
  · exact absurd small (Nat.not_lt.mpr large)

end

namespace ProtectedState
variable {memory : Memory} {heapStart heapEnd : Nat} {context : ThreadId → FullRegisterContext}
  {start state : ProtectedState}

private theorem boot_isolated (aligned : ∀ power, FirstBlock heapStart heapEnd power →
    2 ^ power ∣ roundToAlignment heapStart pageSize)
    (booted : boot memory heapStart heapEnd context = .ok start) :
    ∃ space, Isolated space start := by
  obtain ⟨allocator, built, rest⟩ := bind_ok.mp booted
  obtain ⟨pages, allocated, rest⟩ := bind_ok.mp rest
  obtain ⟨space, initial⟩ := constructed_aligned aligned built
  obtain ⟨holds, sizes⟩ := initial.allocates _ PageRange.halving_dvd allocated
  split at rest
  · rename_i dummy fallback default startup inputBuffer heap live
    cases rest
    have large : ∀ range ∈ pages.live, pagePower ≤ range.power := fun range member => by
      have enough : ∀ power ∈ [heapPower, bufferPower, stackPower, stackPower, stackPower,
        stackPower], pagePower ≤ power := by decide
      exact enough _ ((sizes range member).resolve_left List.not_mem_nil)
    have order : ([default, fallback, dummy, startup] ++ [heap, inputBuffer]).Perm pages.live := by
      rw [live]
      have reordered : [default, fallback, dummy, startup].Perm
        [dummy, fallback, default, startup] := by
        refine (List.Perm.swap fallback default _).trans
          (((List.Perm.swap dummy default _).cons fallback).trans ?_)
        exact List.Perm.swap dummy fallback _
      exact reordered.append (List.Perm.swap inputBuffer heap [])
    have given {thread : ThreadId} (small : thread < 4) :
      [default, fallback, dummy, startup].getD thread startup ∈ pages.live := by
      rw [List.getD_eq_getElem _ _ small]
      exact order.subset (List.mem_append_left _ (List.getElem_mem small))
    have dealt := Shares.deal (order.nodup_iff.mpr holds.live_nodup)
      (fun item member => order.subset member) startup
    refine ⟨space, boot_valid, holds, large, ?_, fun thread => ?_,
      fun thread ordinary user => .inr (boot_levels thread ordinary user),
      fun user => ?_⟩
    · simp only [boot_assets]
      exact dealt
    · dsimp only
      rw [(boot_assets thread).2]
      by_cases small : thread < 4
      · obtain ⟨setUp, kernel⟩ :=
          @boot_kernel (fun thread => [default, fallback, dummy, startup].getD thread startup)
            context thread small
        rw [if_pos small, if_pos small, stackRegion_eq (large _ (given small))]
        exact .kernel setUp kernel _ []
      · rw [if_neg small, if_neg small, boot_unborn (Nat.not_lt.mp small)]
        exact .gone rfl []
    · cases (show (0b10 : UInt32) = 0b11 from user)
  · cases rest

/-- The address lies in a range of the thread, or in one that it is about to give back. -/
def Owns (state : ProtectedState) (thread : ThreadId) (address : Nat) : Prop :=
  ∃ range ∈ (state.system.threads thread).holdings, address ∈ range.cells

theorem reachable_isolated (aligned : ∀ power, FirstBlock heapStart heapEnd power →
    2 ^ power ∣ roundToAlignment heapStart pageSize)
    (booted : boot memory heapStart heapEnd context = .ok start)
    (reachable : machine.Reachable start state) :
    ∃ space, Isolated space state := by
  obtain ⟨space, initial⟩ := boot_isolated aligned booted
  exact ⟨space, reachable.invariant _ initial fun isolated permitted executed => (isolated.execute permitted).value executed⟩

theorem live_apart {space : Set Nat} (isolated : Isolated space state) {first second : PageRange}
    (one : first ∈ state.pages.live)
    (two : second ∈ state.pages.live) (distinct : first ≠ second) :
    Disjoint first.cells second.cells := by
  obtain ⟨free, holds⟩ := isolated.pages
  exact (List.pairwise_append.mp holds.packs.disjoint).2.1.forall one two distinct

private theorem owns_apart {space : Set Nat} (isolated : Isolated space state)
    {thread other : ThreadId} (differs : other ≠ thread) {address : Nat}
    (mine : state.Owns thread address) : ¬state.Owns other address := by
  rintro ⟨theirs, held, inside⟩
  obtain ⟨range, owned, within⟩ := mine
  have distinct : range ≠ theirs :=
    fun same => isolated.shares.apart thread other differs.symm range owned (same ▸ held)
  have disjoint := live_apart isolated (isolated.shares.held thread range owned)
    (isolated.shares.held other theirs held) distinct
  exact Set.disjoint_left.mp disjoint within inside

private theorem owns_outside {space : Set Nat} (isolated : Isolated space state) {thread : ThreadId}
    {address : Nat}
    (mine : state.Owns thread address) {kept : PageRange} (member : kept ∈ state.kernelRanges) :
    address ∉ kept.cells := by
  intro inside
  obtain ⟨range, owned, within⟩ := mine
  obtain ⟨live, outside⟩ := isolated.shares.kept kept member
  have distinct : range ≠ kept := fun same => outside thread (same ▸ owned)
  exact Set.disjoint_left.mp (live_apart isolated (isolated.shares.held thread range owned) live distinct) within inside

/-- The memory that a thread owns is not on a list of the page allocator. -/
theorem owns_allocated {space : Set Nat} (isolated : Isolated space state) :
    ∃ free, state.pages.allocator.Lists free ∧
    ∀ block ∈ free, ∀ thread address, state.Owns thread address → address ∉ block.cells := by
  obtain ⟨free, holds⟩ := isolated.pages
  refine ⟨free, holds.lists, fun block listed thread address owns inside => ?_⟩
  obtain ⟨range, owned, within⟩ := owns
  have disjoint := (List.pairwise_append.mp holds.packs.disjoint).2.2 block listed range
    (isolated.shares.held thread range owned)
  exact Set.disjoint_left.mp disjoint inside within

/-- Whenever the processor is in unprivileged mode, the MPU lets the process that runs read, write
and execute exactly what its page ranges and the two regions for code are for. None of these ranges
belongs to another thread, to the heap of the kernel or to the ring of the UART, and none is
free. -/
theorem processes_isolated (aligned : ∀ power, FirstBlock heapStart heapEnd power →
    2 ^ power ∣ roundToAlignment heapStart pageSize)
    (booted : boot memory heapStart heapEnd context = .ok start)
    (reachable : machine.Reachable start state)
    (user : state.unprivileged) :
    ∃ thread, state.system.activeThread = some thread ∧
      (∀ access address, state.mpu.permits false access address = true ↔
        Lets (state.Owns thread address) address access) ∧
      (∀ other address, other ≠ thread → state.Owns thread address → ¬state.Owns other address) ∧
      (∀ address, state.Owns thread address → address ∉ state.heap.cells ∧
        address ∉ state.inputBuffer.cells) ∧
      ∃ free, state.pages.allocator.Lists free ∧
      ∀ block ∈ free, ∀ address, state.Owns thread address → address ∉ block.cells := by
  obtain ⟨space, isolated⟩ := reachable_isolated aligned booted reachable
  obtain ⟨thread, active, point, permits⟩ := isolated.permits_iff user
  have holdings : (state.system.threads thread).holdings =
    (state.system.threads thread).ownedPageRanges := by
    rw [Thread.holdings, point]
    exact List.append_nil _
  obtain ⟨free, lists, allocated⟩ := owns_allocated isolated
  refine ⟨thread, active, fun access address => ?_,
    fun other address differs mine => owns_apart isolated differs mine,
    fun address mine => ⟨?_, ?_⟩, free, lists, fun block listed address owns =>
      allocated block listed thread address owns⟩
  · rw [permits access address, Owns, holdings]
  · exact owns_outside isolated mine List.mem_cons_self
  · exact owns_outside isolated mine (List.mem_cons_of_mem _ List.mem_cons_self)

/-- The first process is loaded into memory that begins at a multiple of its size. It writes a byte,
and one arrives at the UART. -/
def firstProcess : List ProtectedEvent :=
  let context := entryContext 0 0
  let events : List SystemEvent :=
    [.thread 2 .enable, .thread 2 .trigger, .pendSV, .thread 3 .constructHandler,
    .thread 3 (.setupHandler ⟨11, 0x20006800⟩ context), .thread 3 .construct,
      .thread 3 (.setup 5 ⟨11, 0x20007000⟩ context),
    .thread 3 (.enqueueChild 5), .thread 3 .finish, .thread 3 (.mask none), .thread 3 .trigger,
      .pendSV] ++ SystemEvent.destroys 3 ++
    [.thread 5 (.loadExecutable ⟨12, 0x20008000⟩), .thread 5 .handOver]
  events.map .system ++ [.write 0x20008abc 7, .receive 0x20004000 104]

theorem aligned_heap : ∀ power, FirstBlock 0x20000000 0x20040000 power →
    2 ^ power ∣ roundToAlignment 0x20000000 pageSize := by
  intro power first
  have start : roundToAlignment 0x20000000 pageSize = 2 ^ 29 := by decide
  rw [start]
  exact Nat.pow_dvd_pow 2 (Nat.le_trans first.2.1 (by decide))

theorem firstProcess_reachable :
    ∃ start state, boot (fun _ => 0) 0x20000000 0x20040000 (fun _ => entryContext 0 0) = .ok start ∧
    machine.Reachable start state ∧ state.unprivileged ∧ state.system.activeThread = some 5 ∧
      state.permitted (.system (.thread 5 .svc)) := by
  have played : ((boot (fun _ => 0) 0x20000000 0x20040000 fun _ => entryContext 0 0).toOption.bind fun start =>
      (machine.after start firstProcess).map fun state =>
        (state.system.activeThread, state.system.control,
        decide (state.permitted (.system (.thread 5 .svc))))) = some (some 5, 0b11, true) := by
    decide +kernel
  cases booted : boot (fun _ => 0) 0x20000000 0x20040000 fun _ => entryContext 0 0 with
  | error fault =>
    rw [booted] at played
    cases played
  | ok start =>
    rw [booted] at played
    obtain ⟨state, executed, shape⟩ := Option.map_eq_some_iff.mp played
    obtain ⟨active, rest⟩ := Prod.mk.inj shape
    obtain ⟨control, permitted⟩ := Prod.mk.inj rest
    exact ⟨start, state, rfl, Machine.reachable_after executed, control, active,
      of_decide_eq_true permitted⟩

theorem processes_isolated_first : ∃ state : ProtectedState,
    state.system.activeThread = some 5 ∧ state.unprivileged ∧
    ∃ thread, state.system.activeThread = some thread ∧
      (∀ access address, state.mpu.permits false access address = true ↔
        Lets (state.Owns thread address) address access) ∧
      ∀ address, state.Owns thread address →
      address ∉ state.heap.cells ∧ address ∉ state.inputBuffer.cells := by
  obtain ⟨start, state, booted, reachable, user, active, -⟩ := firstProcess_reachable
  obtain ⟨thread, same, permits, -, outside, -⟩ :=
    processes_isolated aligned_heap booted reachable user
  exact ⟨state, active, user, thread, same, permits, outside⟩

/-- A step that the thread system can take never fails a check of the page allocator or of a
function that programs the MPU. -/
theorem protection_transparent
    (aligned : ∀ power, FirstBlock heapStart heapEnd power →
      2 ^ power ∣ roundToAlignment heapStart pageSize)
    (booted : boot memory heapStart heapEnd context = .ok start)
    (reachable : machine.Reachable start state) {event : SystemEvent}
    (permitted : state.permitted (.system event)) :
    Returns (state.execute (.system event)) ↔ Returns (state.system.execute event) := by
  obtain ⟨space, isolated⟩ := reachable_isolated aligned booted reachable
  constructor
  · rintro ⟨after, executed⟩
    obtain ⟨system, done, -⟩ := bind_ok.mp executed
    cases result : state.system.execute event with
    | ok system => exact .ok system
    | error fault =>
      rw [result] at done
      cases done
  · rintro ⟨system, done⟩
    obtain ⟨after, executed, -⟩ := isolated.accompanied permitted done
    exact ⟨after, executed⟩

theorem protection_transparent_first : ∃ state : ProtectedState, state.unprivileged ∧
    (Returns (state.execute (.system (.thread 5 .svc))) ↔
      Returns (state.system.execute (.thread 5 .svc))) := by
  obtain ⟨start, state, booted, reachable, user, -, permitted⟩ := firstProcess_reachable
  exact ⟨state, user, protection_transparent aligned_heap booted reachable permitted⟩

end ProtectedState

end PicoOs.Kernel
