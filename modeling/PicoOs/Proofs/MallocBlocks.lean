import PicoOs.Userland.Malloc

/-! The blocks that `malloc` hands out. Its assertion compares with the start of the heap, so that
nothing is handed out behind a block that is not empty, and `realloc` leaves blocks where they
are. -/

namespace PicoOs.Userland
open Library

namespace MallocCall

def sizes (calls : List MallocCall) : List Nat :=
  calls.foldl (fun sizes call =>
    match call with
    | .malloc size => sizes ++ [size]
    | .realloc block size => sizes.set block size) []

def mallocs (calls : List MallocCall) : List Nat :=
  calls.filterMap fun
    | .malloc size => some size
    | .realloc _ _ => none

def words : MallocCall → Nat
  | .malloc size => (size + 3) / 4 * 4
  | .realloc _ size => (size + 3) / 4 * 4

theorem sizes_malloc (calls : List MallocCall) (size : Nat) :
    sizes (calls ++ [.malloc size]) = sizes calls ++ [size] :=
  List.foldl_concat _ _ _ _

theorem sizes_realloc (calls : List MallocCall) (block size : Nat) :
    sizes (calls ++ [.realloc block size]) = (sizes calls).set block size :=
  List.foldl_concat _ _ _ _

theorem mallocs_malloc (calls : List MallocCall) (size : Nat) :
    mallocs (calls ++ [.malloc size]) = mallocs calls ++ [size] :=
  List.filterMap_append

theorem mallocs_realloc (calls : List MallocCall) (block size : Nat) :
    mallocs (calls ++ [.realloc block size]) = mallocs calls :=
  List.filterMap_append.trans (List.append_nil _)

end MallocCall

open MallocCall

/-- Calls as a process may make them: blocks exist when they are named, and the sizes fit into the
heap. -/
structure Legal (symbols : HeapSymbols) (calls : List MallocCall) : Prop where
  named : ∀ earlier block size, earlier ++ [.realloc block size] <+: calls →
    block < (sizes earlier).length
  room : (calls.map words).sum ≤ symbols.stop - symbols.start

structure HeapSymbols.Linked (symbols : HeapSymbols) : Prop where
  nonnull : 0 < symbols.start
  aligned : symbols.start % 4 = 0
  ordered : symbols.start ≤ symbols.stop
  fits : symbols.stop < 2 ^ 32

def Area.Apart (first second : Area) : Prop :=
  ∀ address, first.address ≤ address → address < first.address + first.count →
    ¬ (second.address ≤ address ∧ address < second.address + second.count)

private theorem apart_iff (start first second : Nat) :
    Area.Apart ⟨start, first⟩ ⟨start, second⟩ ↔ first = 0 ∨ second = 0 := by
  constructor
  · intro apart
    by_contra both
    rw [not_or] at both
    exact apart start (Nat.le_refl _) (by show start < start + first; omega) ⟨Nat.le_refl _, by show start < start + second; omega⟩
  · intro empty address above below inside
    simp only at above below inside
    omega

/-- What the blocks are for. -/
structure UserHeap.Sound (symbols : HeapSymbols) (calls : List MallocCall)
    (state : UserHeap) : Prop where
  requested : state.blocks.map Area.count = sizes calls
  aligned : ∀ block ∈ state.blocks, block.address % 4 = 0
  inside : ∀ block ∈ state.blocks, symbols.start ≤ block.address ∧
    block.address + block.count ≤ symbols.stop
  apart : state.blocks.Pairwise Area.Apart

def Served (symbols : HeapSymbols) (calls : List MallocCall) : Prop :=
  ∀ earlier, earlier <+: calls → ∃ state, UserHeap.run symbols earlier = .ok state ∧
    state.Sound symbols earlier

/-- Only the last `malloc` asks for bytes, and no two blocks are to have bytes at the same time. -/
structure Undisturbed (calls : List MallocCall) : Prop where
  mallocs : ∀ size ∈ (mallocs calls).dropLast, size = 0
  lone : ∀ earlier, earlier <+: calls → (sizes earlier).Pairwise fun first second =>
    first = 0 ∨ second = 0

section
variable {symbols : HeapSymbols} {calls : List MallocCall} {call : MallocCall} {state : UserHeap}
  {size heap : Nat}

theorem Legal.earlier (legal : Legal symbols (calls ++ [call])) : Legal symbols calls where
  named earlier block size before :=
    legal.named earlier block size (before.trans (List.prefix_append _ _))
  room := by
    have room := legal.room
    rw [List.map_append, List.sum_append] at room
    omega

private theorem Legal.small (legal : Legal symbols calls) (member : call ∈ calls) :
    call.words ≤ symbols.stop - symbols.start :=
  Nat.le_trans (List.single_le_sum (fun _ _ => Nat.zero_le _) _ (List.mem_map_of_mem member)) legal.room

private theorem Undisturbed.earlier (undisturbed : Undisturbed (calls ++ [call])) :
    Undisturbed calls where
  mallocs := by
    have empty := undisturbed.mallocs
    cases call with
    | malloc size =>
      rw [mallocs_malloc, List.dropLast_concat] at empty
      exact fun size member => empty size (List.mem_of_mem_dropLast member)
    | realloc block size => rwa [mallocs_realloc] at empty
  lone earlier before := undisturbed.lone earlier (before.trans (List.prefix_append _ _))

private theorem roundToWord_eq (small : size < 2 ^ 32 - 4) :
    roundToWord size = (size + 3) / 4 * 4 := by
  unfold roundToWord minus wrap
  split <;> omega

def nextBlock (symbols : HeapSymbols) (heap : Nat) : Nat := if heap = 0 then symbols.start else heap

private theorem malloc_eq (linked : symbols.Linked) (above : symbols.start ≤ nextBlock symbols heap)
    (room : nextBlock symbols heap + (size + 3) / 4 * 4 ≤ symbols.stop) :
    malloc symbols heap size =
      if nextBlock symbols heap ≤ symbols.start then .ok (nextBlock symbols heap, nextBlock symbols heap + (size + 3) / 4 * 4)
      else .error .assert := by
  obtain ⟨nonnull, _, _, fits⟩ := linked
  have rounded : roundToWord size = (size + 3) / 4 * 4 := roundToWord_eq (by omega)
  have sum : wrap (nextBlock symbols heap + (size + 3) / 4 * 4) = nextBlock symbols heap +
    (size + 3) / 4 * 4 :=
    wrap_of_lt (by omega)
  have pointer : minus (nextBlock symbols heap + (size + 3) / 4 * 4) ((size + 3) / 4 * 4) =
    nextBlock symbols heap := by
    rw [minus_of_le (by omega) (Nat.le_add_left _ _), Nat.add_sub_cancel]
  have unfolded : malloc symbols heap size =
      if minus (wrap (nextBlock symbols heap + roundToWord size)) (roundToWord size) ≤
        symbols.start then
        .ok (minus (wrap (nextBlock symbols heap + roundToWord size)) (roundToWord size),
          wrap (nextBlock symbols heap + roundToWord size))
      else .error .assert := rfl
  rw [unfolded, rounded, sum, pointer]

def handedOut (calls : List MallocCall) : Nat :=
  ((mallocs calls).map fun size => (size + 3) / 4 * 4).sum

structure Waiting (symbols : HeapSymbols) (calls : List MallocCall) (state : UserHeap) : Prop where
  blocks : state.blocks = (sizes calls).map fun size => ⟨symbols.start, size⟩
  heap : nextBlock symbols state.heap = symbols.start + handedOut calls

private theorem handedOut_malloc (calls : List MallocCall) (size : Nat) :
    handedOut (calls ++ [.malloc size]) = handedOut calls + (size + 3) / 4 * 4 := by
  rw [handedOut, mallocs_malloc, List.map_append, List.sum_append]
  rfl

private theorem handedOut_le (calls : List MallocCall) :
    handedOut calls ≤ (calls.map words).sum := by
  induction calls with
  | nil => exact Nat.le_refl 0
  | cons call calls ih =>
    unfold handedOut mallocs at ih ⊢
    cases call with
    | malloc size =>
      simp only [List.filterMap_cons, List.map_cons, List.sum_cons, MallocCall.words]
      omega
    | realloc block size =>
      simp only [List.filterMap_cons, List.map_cons, List.sum_cons]
      omega

private theorem handedOut_zero (calls : List MallocCall) :
    handedOut calls = 0 ↔ ∀ size ∈ mallocs calls, size = 0 := by
  unfold handedOut
  rw [List.sum_eq_zero_iff]
  constructor
  · intro zero size member
    have rounded := zero _ (List.mem_map_of_mem member)
    omega
  · intro zero words member
    obtain ⟨size, inside, rfl⟩ := List.mem_map.mp member
    rw [zero size inside]
    rfl

theorem run_concat (calls : List MallocCall) (call : MallocCall) :
    UserHeap.run symbols (calls ++ [call]) = UserHeap.run symbols calls >>=
      fun state => state.execute symbols call := by
  rw [UserHeap.run, List.foldlM_append]
  congr 1
  funext state
  exact bind_pure _

theorem Waiting.malloc (waiting : Waiting symbols calls state) (linked : symbols.Linked)
    (legal : Legal symbols (calls ++ [.malloc size])) :
    (∀ other ∈ mallocs calls, other = 0) ∧
        (∃ after, state.execute symbols (.malloc size) = .ok after ∧
          Waiting symbols (calls ++ [.malloc size]) after) ∨
      (¬ ∀ other ∈ mallocs calls, other = 0) ∧
      state.execute symbols (.malloc size) = .error .assert := by
  have room := legal.room
  have below := handedOut_le (calls ++ [.malloc size])
  rw [handedOut_malloc] at below
  have ordered := linked.ordered
  have place := waiting.heap
  have answer := @malloc_eq symbols size state.heap linked (by omega) (by omega)
  rw [place] at answer
  by_cases zero : handedOut calls = 0
  · refine .inl ⟨(handedOut_zero calls).mp zero, ?_⟩
    rw [zero, Nat.add_zero, if_pos (Nat.le_refl _)] at answer
    have executed : state.execute symbols (.malloc size) =
        .ok ⟨symbols.start + (size + 3) / 4 * 4, state.blocks ++ [⟨symbols.start, size⟩]⟩ := by
      simp only [UserHeap.execute, answer]
      rfl
    refine ⟨_, executed, ?_, ?_⟩
    · rw [waiting.blocks, sizes_malloc, List.map_append]
      rfl
    · rw [handedOut_malloc, zero, Nat.zero_add, nextBlock, if_neg]
      exact Nat.ne_of_gt (Nat.lt_of_lt_of_le linked.nonnull (Nat.le_add_right _ _))
  · refine .inr ⟨fun all => zero ((handedOut_zero calls).mpr all), ?_⟩
    rw [if_neg (by omega)] at answer
    simp only [UserHeap.execute, answer]
    rfl

private theorem Waiting.realloc {block : Nat} (waiting : Waiting symbols calls state)
    (legal : Legal symbols (calls ++ [.realloc block size])) :
    ∃ after, state.execute symbols (.realloc block size) = .ok after ∧
    Waiting symbols (calls ++ [.realloc block size]) after := by
  have named := legal.named calls block size (List.prefix_refl _)
  have found : state.blocks[block]? = some ⟨symbols.start, (sizes calls)[block]⟩ := by
    rw [waiting.blocks, List.getElem?_map, List.getElem?_eq_getElem named]
    rfl
  have executed : state.execute symbols (.realloc block size) =
      .ok { state with blocks := state.blocks.set block ⟨symbols.start, size⟩ } := by
    simp only [UserHeap.execute, found]
    rfl
  refine ⟨_, executed, ?_, ?_⟩
  · rw [waiting.blocks, sizes_realloc, List.map_set]
  · have same : handedOut (calls ++ [.realloc block size]) = handedOut calls := by
      unfold handedOut
      rw [mallocs_realloc]
    rw [same]
    exact waiting.heap

/-- Every call that is made returns as long as only the last `malloc` asks for bytes. -/
theorem waiting_run (linked : symbols.Linked) (legal : Legal symbols calls)
    (empty : ∀ size ∈ (mallocs calls).dropLast, size = 0) :
    ∃ state, UserHeap.run symbols calls = .ok state ∧ Waiting symbols calls state := by
  induction calls using List.reverseRecOn with
  | nil => exact ⟨⟨0, []⟩, rfl, rfl, rfl⟩
  | append_singleton calls call ih =>
    rw [run_concat]
    cases call with
    | malloc size =>
      rw [mallocs_malloc, List.dropLast_concat] at empty
      obtain ⟨state, done, waiting⟩ :=
        ih legal.earlier fun size member => empty size (List.mem_of_mem_dropLast member)
      rcases waiting.malloc linked legal with ⟨_, after, executed, kept⟩ | ⟨other, _⟩
      · exact ⟨after, bind_ok.mpr ⟨state, done, executed⟩, kept⟩
      · exact absurd empty other
    | realloc block size =>
      rw [mallocs_realloc] at empty
      obtain ⟨state, done, waiting⟩ := ih legal.earlier empty
      obtain ⟨after, executed, kept⟩ := waiting.realloc legal
      exact ⟨after, bind_ok.mpr ⟨state, done, executed⟩, kept⟩

private theorem mallocs_of_served (linked : symbols.Linked) (legal : Legal symbols calls)
    (served : Served symbols calls) :
    ∀ size ∈ (mallocs calls).dropLast, size = 0 := by
  induction calls using List.reverseRecOn with
  | nil => nofun
  | append_singleton calls call ih =>
    have before := ih legal.earlier fun earlier first =>
      served earlier (first.trans (List.prefix_append _ _))
    cases call with
    | malloc size =>
      rw [mallocs_malloc, List.dropLast_concat]
      obtain ⟨state, done, waiting⟩ := waiting_run linked legal.earlier before
      rcases waiting.malloc linked legal with ⟨zero, _⟩ | ⟨_, failed⟩
      · exact zero
      · obtain ⟨after, returned, _⟩ := served _ (List.prefix_refl _)
        rw [run_concat] at returned
        obtain ⟨middle, first, second⟩ := bind_ok.mp returned
        cases done.symm.trans first
        rw [failed] at second
        cases second
    | realloc block size => rwa [mallocs_realloc]

private theorem sizes_small (legal : Legal symbols calls) :
    ∀ size ∈ sizes calls, size ≤ symbols.stop - symbols.start := by
  induction calls using List.reverseRecOn with
  | nil => nofun
  | append_singleton calls call ih =>
    have last := legal.small (List.mem_append_right calls (List.mem_singleton_self call))
    cases call with
    | malloc size =>
      have small : (size + 3) / 4 * 4 ≤ symbols.stop - symbols.start := last
      rw [sizes_malloc]
      intro other member
      rcases List.mem_append.mp member with earlier | last
      · exact ih legal.earlier other earlier
      · rw [List.mem_singleton.mp last]
        omega
    | realloc block size =>
      have small : (size + 3) / 4 * 4 ≤ symbols.stop - symbols.start := last
      rw [sizes_realloc]
      intro other member
      rcases List.mem_or_eq_of_mem_set member with earlier | rfl
      · exact ih legal.earlier other earlier
      · omega

/-- All blocks are at the start, so that they are sound exactly if no two of them have bytes. -/
theorem Waiting.sound_iff (waiting : Waiting symbols calls state) (linked : symbols.Linked)
    (legal : Legal symbols calls) :
    state.Sound symbols calls ↔
    (sizes calls).Pairwise fun first second => first = 0 ∨ second = 0 := by
  have pairs : state.blocks.Pairwise Area.Apart ↔ (sizes calls).Pairwise fun first second =>
    first = 0 ∨ second = 0 := by
    rw [waiting.blocks, List.pairwise_map]
    exact iff_of_eq (congrArg (fun relation => (sizes calls).Pairwise relation)
      (funext fun first => funext fun second => propext (apart_iff symbols.start first second)))
  rw [← pairs]
  refine ⟨UserHeap.Sound.apart, fun apart => ⟨?_, ?_, ?_, apart⟩⟩
  · rw [waiting.blocks, List.map_map]
    exact List.map_id _
  · intro block member
    rw [waiting.blocks] at member
    obtain ⟨size, _, rfl⟩ := List.mem_map.mp member
    exact linked.aligned
  · intro block member
    rw [waiting.blocks] at member
    obtain ⟨size, inside, rfl⟩ := List.mem_map.mp member
    have small := sizes_small legal size inside
    have ordered := linked.ordered
    refine ⟨Nat.le_refl _, ?_⟩
    show symbols.start + size ≤ symbols.stop
    omega

private theorem Legal.of_prefix {earlier : List MallocCall} (legal : Legal symbols calls)
    (first : earlier <+: calls) : Legal symbols earlier := by
  induction calls using List.reverseRecOn with
  | nil => rwa [List.prefix_nil.mp first]
  | append_singleton calls call ih =>
    rcases List.prefix_concat_iff.mp first with rfl | before
    · exact legal
    · exact ih legal.earlier before

private theorem Undisturbed.of_prefix {earlier : List MallocCall} (undisturbed : Undisturbed calls)
    (first : earlier <+: calls) :
    Undisturbed earlier := by
  induction calls using List.reverseRecOn with
  | nil => rwa [List.prefix_nil.mp first]
  | append_singleton calls call ih =>
    rcases List.prefix_concat_iff.mp first with rfl | before
    · exact undisturbed
    · exact ih undisturbed.earlier before

end

/-- Calls that fit into the heap are served exactly if they leave each other alone. -/
theorem mallocs_served_iff {symbols : HeapSymbols} {calls : List MallocCall}
    (linked : symbols.Linked) (legal : Legal symbols calls) :
    Served symbols calls ↔ Undisturbed calls := by
  constructor
  · intro served
    have empty := mallocs_of_served linked legal served
    refine ⟨empty, ?_⟩
    intro earlier first
    have before := mallocs_of_served linked (legal.of_prefix first) fun other within =>
      served other (within.trans first)
    obtain ⟨state, done, waiting⟩ := waiting_run linked (legal.of_prefix first) before
    obtain ⟨after, returned, sound⟩ := served earlier first
    cases done.symm.trans returned
    exact (waiting.sound_iff linked (legal.of_prefix first)).mp sound
  · intro undisturbed earlier first
    obtain ⟨state, done, waiting⟩ :=
      waiting_run linked (legal.of_prefix first) (undisturbed.of_prefix first).mallocs
    exact ⟨state, done, (waiting.sound_iff linked (legal.of_prefix first)).mpr (undisturbed.lone earlier first)⟩

theorem Legal.start (symbols : HeapSymbols) : Legal symbols [] where
  named _ _ _ before := absurd (List.prefix_nil.mp before) (List.concat_ne_nil _ _)
  room := Nat.zero_le _

/-- One more call, whose block exists and for whose size there is room. -/
theorem Legal.concat {symbols : HeapSymbols} {calls : List MallocCall} {call : MallocCall}
    (legal : Legal symbols calls)
    (named : ∀ block size, call = .realloc block size → block < (sizes calls).length)
    (room : ((calls ++ [call]).map words).sum ≤ symbols.stop - symbols.start) :
    Legal symbols (calls ++ [call]) where
  named earlier block size before := by
    rcases List.prefix_concat_iff.mp before with same | before
    · obtain ⟨rfl, last⟩ := List.append_inj' same rfl
      exact named block size (List.cons.inj last).1.symm
    · exact legal.named earlier block size before
  room := room

def exampleSymbols : HeapSymbols := ⟨0x20001000, 0x20002000⟩

private theorem exampleSymbols_linked : exampleSymbols.Linked :=
  ⟨by decide, by decide, by decide, by decide⟩

theorem mallocs_served_iff_grown :
    Served exampleSymbols [.malloc 0, .malloc 4, .realloc 1 8] ↔
    Undisturbed [.malloc 0, .malloc 4, .realloc 1 8] := by
  have first : Legal exampleSymbols ([] ++ [.malloc 0]) := (Legal.start _).concat nofun (by decide)
  have second : Legal exampleSymbols ([.malloc 0] ++ [.malloc 4]) := first.concat nofun (by decide)
  have third : Legal exampleSymbols ([.malloc 0, .malloc 4] ++ [.realloc 1 8]) := by
    refine second.concat ?_ (by decide)
    intro block size same
    cases same
    decide
  exact mallocs_served_iff exampleSymbols_linked third

/-- The heap has room for two words, but the second one is not handed out. -/
theorem mallocs_not_served : Legal exampleSymbols [.malloc 4, .malloc 4] ∧
    ¬ Served exampleSymbols [.malloc 4, .malloc 4] := by
  have first : Legal exampleSymbols ([] ++ [.malloc 4]) := (Legal.start _).concat nofun (by decide)
  refine ⟨first.concat nofun (by decide), ?_⟩
  intro served
  obtain ⟨state, done, _⟩ := served _ (List.prefix_refl _)
  have failed : (UserHeap.run exampleSymbols [.malloc 4, .malloc 4]).toOption = none := by
    decide +kernel
  rw [done] at failed
  cases failed

end PicoOs.Userland
