import PicoOs.Proofs.SetSteps

/-! A sorted set is a finite set. What it holds for a key is decided by the latest event
that concerns the key; the tree has these values and no others. -/

namespace PicoOs.Std
open Library NodeHeap
variable {α : Type}

/-- What the events, latest first, leave in the set for the key. A set that is moved from
is empty, and the other one has what it had. -/
def latest (order : Comparison α) : List (SetEvent α) → SetId → α → Option α
  | [], _, _ => none
  | .insert other value :: earlier, set, key =>
    if other = set ∧ order.equivalent key value then some value else latest order earlier set key
  | .remove other value :: earlier, set, key =>
    if other = set ∧ order.equivalent key value then none else latest order earlier set key
  | .clear other :: earlier, set, key => if other = set then none else latest order earlier set key
  | .move target source :: earlier, set, key =>
    if set = source then none
    else if set = target then latest order earlier source key
    else latest order earlier set key

def SearchTree (order : Comparison α) : BinaryTree (NodeRef × α) → Prop
  | .nil => True
  | .node label left right =>
    (∀ value ∈ values left, order.less value label.2) ∧
      (∀ value ∈ values right, order.less label.2 value) ∧
      SearchTree order left ∧ SearchTree order right

def Least (order : Comparison α) (list : List α) : Option α → Prop
  | none => list = []
  | some least => least ∈ list ∧ ∀ value ∈ list, order.less value least = false

def SetEvent.latestFirst (history : List (SortedSets α × SetEvent α)) : List (SetEvent α) :=
  (history.map Prod.snd).reverse

/-- The set has the tree, and behaves as the events say. -/
structure Meets (order : Comparison α) (events : List (SetEvent α)) (heap : NodeHeap α)
    (set : SortedSet) (id : SetId)
    (tree : BinaryTree (NodeRef × α)) : Prop where
  root : set.root = rootOf tree
  linked : Linked heap.links tree
  unique : (refs tree).Nodup
  ordered : SearchTree order tree
  stored : ∀ value, value ∈ values tree ↔ latest order events id value = some value
  search : ∀ key, set.search order heap key = .ok (latest order events id key)
  min : ∃ least, set.min heap = .ok least ∧ Least order (values tree) least
  size : set.size = (values tree).length

namespace Sorted
variable {order : Comparison α}

private theorem searchTree {tree : BinaryTree (NodeRef × α)} (sorted : Sorted order (values tree)) :
    SearchTree order tree := by
  induction tree with
  | nil => trivial
  | node label left right ihLeft ihRight =>
    rw [Sorted, values_node, List.pairwise_append, List.pairwise_cons] at sorted
    obtain ⟨sortedLeft, ⟨above, sortedRight⟩, across⟩ := sorted
    exact ⟨fun value member => across value member label.2 List.mem_cons_self, above,
      ihLeft sortedLeft, ihRight sortedRight⟩

/-- The place of a value is where it is. -/
theorem splits {list : List α} (sorted : Sorted order list) (strict : order.Strict) {value : α}
    (member : value ∈ list) :
    ∃ below above, Splits order value list below [value] above := by
  obtain ⟨below, above, rfl⟩ := List.append_of_mem member
  rw [Sorted, List.pairwise_append, List.pairwise_cons] at sorted
  obtain ⟨_, ⟨after, _⟩, across⟩ := sorted
  refine ⟨below, above, by simp, fun low inBelow => across low inBelow value List.mem_cons_self, ?_, after⟩
  exact .inr ⟨value, rfl, strict.equivalent_refl value⟩

end Sorted

namespace Splits
variable {order : Comparison α} {key other : α} {list below same above : List α}

theorem find_below (splits : Splits order key list below same above) (strict : order.Strict)
    (near : order.equivalent other key) :
    below.find? (fun value => order.equivalent other value) = none := by
  refine List.find?_eq_none.mpr fun value member found => ?_
  have less := strict.less_of_less_equivalent (splits.below value member) near
  rw [(strict.equivalent_iff.mp found).2] at less
  cases less

theorem find_above (splits : Splits order key list below same above) (strict : order.Strict)
    (near : order.equivalent other key) :
    above.find? (fun value => order.equivalent other value) = none := by
  refine List.find?_eq_none.mpr fun value member found => ?_
  have less := strict.less_of_equivalent_less near (splits.above value member)
  rw [(strict.equivalent_iff.mp found).1] at less
  cases less

theorem find_same (splits : Splits order key list below same above) (strict : order.Strict)
    (far : order.equivalent other key = false) :
    same.find? (fun value => order.equivalent other value) = none := by
  obtain rfl | ⟨value, rfl, near⟩ := splits.same
  · rfl
  · refine List.find?_eq_none.mpr fun found member equivalent => ?_
    obtain rfl := List.mem_singleton.mp member
    rw [strict.equivalent_trans equivalent (strict.equivalent_symm near)] at far
    cases far

theorem find (splits : Splits order key list below same above) (strict : order.Strict) :
    list.find? (fun value => order.equivalent key value) = same.head? := by
  have near := strict.equivalent_refl key
  rw [splits.whole, List.find?_append, List.find?_append, splits.find_below strict near,
    splits.find_above strict near]
  obtain rfl | ⟨value, rfl, equivalent⟩ := splits.same
  · rfl
  · simp [equivalent]

private theorem find_inserted (splits : Splits order key list below same above)
    (strict : order.Strict) (other : α) :
    (below ++ key :: above).find? (fun value => order.equivalent other value) =
      if order.equivalent other key then some key else list.find? fun value => order.equivalent other value := by
  rw [List.find?_append, List.find?_cons]
  split
  next near => simp [near, splits.find_below strict near]
  next far =>
    rw [if_neg (Bool.eq_false_iff.mp far), splits.whole, List.find?_append, List.find?_append,
      splits.find_same strict far,
      Option.or_none]

private theorem find_removed (splits : Splits order key list below same above)
    (strict : order.Strict) (other : α) :
    (below ++ above).find? (fun value => order.equivalent other value) =
      if order.equivalent other key then none else list.find? fun value => order.equivalent other value := by
  rw [List.find?_append]
  split
  next near => rw [splits.find_below strict near, splits.find_above strict near, Option.or_none]
  next far =>
    rw [splits.whole, List.find?_append, List.find?_append,
      splits.find_same strict (Bool.eq_false_iff.mpr far),
      Option.or_none]

end Splits

/-- The lists follow the events: what a list has for a key is what the latest event about
it left there. -/
theorem Changes.latest {order : Comparison α} (strict : order.Strict)
    {before after : SetId → List α} {event : SetEvent α}
    {events : List (SetEvent α)} (changes : Changes order before after event)
    (follows : ∀ set key, latest order events set key =
      (before set).find? fun value => order.equivalent key value)
    (set : SetId) (key : α) :
    latest order (event :: events) set key = (after set).find? fun value => order.equivalent
      key value := by
  cases event with
  | insert target value =>
    obtain ⟨below, same, above, splits, rfl⟩ := changes
    by_cases here : target = set
    · subst here
      simp only [Std.latest, true_and, Function.update_self, splits.find_inserted strict, follows]
    · simp only [Std.latest, here, false_and, if_false,
        Function.update_of_ne (Ne.symm here), follows]
  | remove target value =>
    obtain ⟨below, same, above, splits, rfl⟩ := changes
    by_cases here : target = set
    · subst here
      simp only [Std.latest, true_and, Function.update_self, splits.find_removed strict, follows]
    · simp only [Std.latest, here, false_and, if_false,
        Function.update_of_ne (Ne.symm here), follows]
  | clear target =>
    obtain rfl := changes
    by_cases here : target = set
    · simp [Std.latest, here]
    · simp only [Std.latest, here, if_false, Function.update_of_ne (Ne.symm here), follows]
  | move target source =>
    obtain rfl := changes
    simp only [Std.latest, Function.update_apply]
    by_cases isSource : set = source
    · by_cases isTarget : set = target
      · subst isTarget
        simp [isSource]
      · simp [isSource, isSource ▸ isTarget]
    · by_cases isTarget : set = target
      · have different : source ≠ target := fun same => isSource (isTarget.trans same.symm)
        subst isTarget
        simp only [isSource, if_false, if_true, different, follows]
      · simp only [isSource, isTarget, if_false, follows]

namespace SortedSet
open SortedSet
variable {order : Comparison α} {heap : NodeHeap α} {set : SortedSet}
  {tree : BinaryTree (NodeRef × α)}

theorem Holds.search_find (holds : Holds order heap set tree) (strict : order.Strict) (key : α) :
    set.search order heap key = .ok ((values tree).find? fun value => order.equivalent key value) := by
  obtain ⟨found, rest, rfl, located, searched⟩ := holds.search strict key
  simp only [SortedSet.search, searched, bind, Except.bind]
  cases rest with
  | nil =>
    rw [located.splits_nil.find strict]
    rfl
  | node label left right =>
    obtain ⟨contents, here, same⟩ := present (linked_plug.mp holds.linked).2.1
    have valueRef : contents.value = label.2 := congrArg Links.value same
    rw [(located.splits_node strict holds.sorted).find strict]
    simp only [rootOf_node, valueOf, load_present here, bind, Except.bind, valueRef,
      List.head?_cons]

private theorem Holds.min_least (holds : Holds order heap set tree) (strict : order.Strict) :
    ∃ least, set.min heap = .ok least ∧ Least order (values tree) least := by
  cases tree with
  | nil =>
    refine ⟨none, ?_, rfl⟩
    simp only [SortedSet.min, holds.root, rootOf_nil]
    cases heap.next <;> rfl
  | node label left right =>
    obtain ⟨frames, least, beside, shape, first, reached⟩ := minImpl_spec holds.linked holds.enough
    have walked : minImpl heap heap.next (some label.1) none = .ok _ := reached []
    have linked := holds.linked
    have sorted := holds.sorted
    rw [← shape] at linked sorted ⊢
    obtain ⟨contents, here, same⟩ := present (linked_plug.mp linked).2.1
    have valueRef : contents.value = least.2 := congrArg Links.value same
    have list : values (plug frames (.node least .nil beside)) =
      least.2 :: (values beside ++ (after frames).map Prod.snd) := by
      rw [values_plug, values_node, first]
      rfl
    refine ⟨some least.2, ?_, ?_⟩
    · simp only [SortedSet.min, holds.root, rootOf_node, walked, bind, Except.bind, valueOf,
        load_present here, valueRef]
    · rw [list, Sorted, List.pairwise_cons] at sorted
      rw [list]
      refine ⟨List.mem_cons_self, fun value member => ?_⟩
      obtain rfl | later := List.mem_cons.mp member
      · exact strict.irrefl least.2
      · exact strict.asymm (sorted.1 value later)

end SortedSet

namespace SortedSets
variable {order : Comparison α} {state : SortedSets α} {history : List (SortedSets α × SetEvent α)}

theorem represented (strict : order.Strict) (run : (machine order).Run .initial history state) :
    ∃ trees, Represents order state trees ∧
    ∀ set key, latest order (SetEvent.latestFirst history) set key =
      (values (trees set)).find? fun value => order.equivalent key value := by
  refine run.induct (fun history state => ∃ trees, Represents order state trees ∧ ∀ set key,
    latest order (SetEvent.latestFirst history) set key = (values (trees set)).find? fun value =>
      order.equivalent key value)
    ⟨fun _ => .nil, .initial, fun _ _ => rfl⟩ ?_
  rintro history state event next _ ⟨trees, represents, follows⟩ _ executed
  obtain ⟨after, trees', same, represents, changes, _⟩ := represents.execute strict event
  cases same.symm.trans executed
  refine ⟨trees', represents, fun set key => ?_⟩
  rw [SetEvent.latestFirst, List.map_append, List.reverse_append]
  exact changes.latest strict follows set key

end SortedSets

/-- Whatever has been done to the sets, each of them is the finite set that the events
leave, no operation meets an assertion, and a node that no set has any more has been
destroyed exactly once. -/
theorem sorted_sets_refine {order : Comparison α} (strict : order.Strict) {state : SortedSets α}
    {history : List (SortedSets α × SetEvent α)}
    (run : (SortedSets.machine order).Run .initial history state) :
    ∃ trees : SetId → BinaryTree (NodeRef × α),
      (∀ id, Meets order (SetEvent.latestFirst history) state.heap (state.sets id) id (trees id)) ∧
      (∀ id other ref, ref ∈ refs (trees id) → ref ∈ refs (trees other) → id = other) ∧
      (∀ event, ∃ next, state.execute order event = .ok next) ∧
      ∀ ref, (state.heap.nodes ref ≠ none ↔ ∃ id, ref ∈ refs (trees id)) ∧
        state.heap.destroyed.count ref = if ref < state.heap.next ∧ (state.heap.nodes ref).isNone then 1 else 0 := by
  obtain ⟨trees, represents, follows⟩ := SortedSets.represented strict run
  refine ⟨trees, fun id => ?_, fun _ _ _ first second => represents.apart first second,
    fun event => ?_, fun ref => ?_⟩
  · have holds := represents.holds id
    refine ⟨holds.root, holds.linked, holds.unique, holds.sorted.searchTree,
      fun value => ?_, fun key => ?_,
      holds.min_least strict, ?_⟩
    · rw [follows]
      constructor
      · intro member
        obtain ⟨below, above, splits⟩ := holds.sorted.splits strict member
        exact splits.find strict
      · exact List.mem_of_find?_eq_some
    · rw [follows]
      exact holds.search_find strict key
    · rw [holds.size, length_values]
  · obtain ⟨next, _, ran, _⟩ := represents.execute strict event
    exact ⟨next, ran⟩
  · have alive : state.heap.nodes ref ≠ none ↔ ∃ id, ref ∈ refs (trees id) :=
      ⟨represents.alive ref, fun ⟨id,
        member⟩ => linked_alive (represents.holds id).linked ref member⟩
    have gone : (state.heap.nodes ref).isNone ↔ ∀ id, ref ∉ refs (trees id) := by
      rw [Option.isNone_iff_eq_none, ← not_exists, ← alive, not_not]
    have destroyed : ref ∈ state.heap.destroyed ↔
      ref < state.heap.next ∧ (state.heap.nodes ref).isNone := by
      rw [gone]
      exact represents.destroyed ref
    refine ⟨alive, ?_⟩
    split
    next here => exact List.count_eq_one_of_mem represents.once (destroyed.mpr here)
    next elsewhere => exact List.count_eq_zero.mpr (mt destroyed.mp elsewhere)

theorem sorted_sets_refine_three :
    ∃ state history, (SortedSets.machine (.linear : Comparison Nat)).Run .initial history state ∧
      history.map Prod.snd = [.insert 0 1, .insert 0 2, .remove 0 1] ∧
      ∃ trees : SetId → BinaryTree (NodeRef × Nat),
        (∀ id, Meets .linear (SetEvent.latestFirst history) state.heap (state.sets id) id (trees id)) ∧
        (∀ id other ref, ref ∈ refs (trees id) → ref ∈ refs (trees other) → id = other) ∧
        (∀ event, ∃ next, state.execute .linear event = .ok next) ∧
        ∀ ref, (state.heap.nodes ref ≠ none ↔ ∃ id, ref ∈ refs (trees id)) ∧
          state.heap.destroyed.count ref = if ref < state.heap.next ∧ (state.heap.nodes ref).isNone then 1 else 0 := by
  have finished : ((SortedSets.machine (.linear : Comparison Nat)).after .initial
      [.insert 0 1, .insert 0 2, .remove 0 1]).isSome := by decide
  obtain ⟨state, played⟩ := Option.isSome_iff_exists.mp finished
  obtain ⟨history, run, events⟩ := Machine.run_after played
  exact ⟨state, history, run, events, sorted_sets_refine Comparison.linear_strict run⟩

end PicoOs.Std
