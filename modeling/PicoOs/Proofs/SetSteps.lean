import PicoOs.Proofs.SetOperations

/-! One step of the sets. Abstractly a set is the sorted list of its values; a step puts a
value into the place its key has in the list, takes the one that is there out, or moves
whole lists around. -/

namespace PicoOs.Std
open Library NodeHeap
variable {α : Type}

/-- The place of the key in a list: smaller values, the one that is equivalent to it, if
there is one, and larger values. -/
structure Splits (order : Comparison α) (key : α) (list below same above : List α) : Prop where
  whole : list = below ++ same ++ above
  below : ∀ value ∈ below, order.less value key
  same : same = [] ∨ ∃ value, same = [value] ∧ order.equivalent key value
  above : ∀ value ∈ above, order.less key value

/-- What happens to the lists, all but one or two of which stay as they are. -/
def Changes (order : Comparison α) (before after : SetId → List α) : SetEvent α → Prop
  | .insert set value => ∃ below same above, Splits order value (before set) below same above ∧
      after = Function.update before set (below ++ value :: above)
  | .remove set value => ∃ below same above, Splits order value (before set) below same above ∧
      after = Function.update before set (below ++ above)
  | .clear set => after = Function.update before set []
  | .move target source =>
    let cleared := Function.update before target []
    after = Function.update (Function.update cleared source []) target (cleared source)

namespace Splits
variable {order : Comparison α} {key : α} {list below same above : List α}

theorem sorted_removed (splits : Splits order key list below same above)
    (sorted : Sorted order list) :
    Sorted order (below ++ above) := by
  rw [splits.whole, List.append_assoc] at sorted
  refine List.Pairwise.sublist ?_ sorted
  exact (List.sublist_append_right same above).append_left below

private theorem sorted_inserted (splits : Splits order key list below same above)
    (strict : order.Strict) (sorted : Sorted order list) :
    Sorted order (below ++ key :: above) := by
  have ⟨first, last, _⟩ := List.pairwise_append.mp (splits.sorted_removed sorted)
  refine List.pairwise_append.mpr ⟨first, List.pairwise_cons.mpr ⟨splits.above, last⟩, ?_⟩
  intro low inBelow high inAbove
  obtain rfl | inAbove := List.mem_cons.mp inAbove
  · exact splits.below low inBelow
  · exact strict.trans (splits.below low inBelow) (splits.above high inAbove)

end Splits

namespace Located
variable {order : Comparison α} {key : α} {path : List (Frame (NodeRef × α))}
  {left right : BinaryTree (NodeRef × α)}
  {label : NodeRef × α}

theorem below_values {tree : BinaryTree (NodeRef × α)} (located : Located order key path tree) :
    ∀ value ∈ (before path).map Prod.snd, order.less value key := by
  rw [List.forall_mem_map]
  exact located.below

theorem above_values {tree : BinaryTree (NodeRef × α)} (located : Located order key path tree) :
    ∀ value ∈ (after path).map Prod.snd, order.less key value := by
  rw [List.forall_mem_map]
  exact located.above

theorem splits_nil (located : Located order key path .nil) :
    Splits order key (values (plug path .nil)) ((before path).map Prod.snd) []
      ((after path).map Prod.snd) where
  whole := by rw [values_plug, values_nil]
  below := located.below_values
  same := .inl rfl
  above := located.above_values

theorem splits_node (located : Located order key path (.node label left right))
    (strict : order.Strict)
    (sorted : Sorted order (values (plug path (.node label left right)))) :
    Splits order key (values (plug path (.node label left right))) ((before path).map Prod.snd ++
      values left) [label.2]
      (values right ++ (after path).map Prod.snd) := by
  have same := located.here label left right rfl
  rw [values_plug, values_node, Sorted, List.pairwise_append, List.pairwise_append,
    List.pairwise_append,
    List.pairwise_cons] at sorted
  obtain ⟨⟨_, ⟨_, ⟨aboveLabel, _⟩, belowLabel⟩, _⟩, _⟩ := sorted
  refine ⟨?_, fun value member => ?_, .inr ⟨_, rfl, same⟩, fun value member => ?_⟩
  · simp [values_plug, values_node]
  · obtain outside | inLeft := List.mem_append.mp member
    · exact located.below_values value outside
    · exact strict.less_of_less_equivalent (belowLabel value inLeft label.2 List.mem_cons_self) same
  · obtain inRight | outside := List.mem_append.mp member
    · exact strict.less_of_equivalent_less same (aboveLabel value inRight)
    · exact located.above_values value outside

end Located

namespace SortedSet
variable {order : Comparison α} {heap middle after : NodeHeap α} {set : SortedSet}
  {path : List (Frame (NodeRef × α))}
  {tree built left right : BinaryTree (NodeRef × α)} {label : NodeRef × α} {key : α}

private theorem Rebuilt.after_values {between : BinaryTree (NodeRef × α)}
    (first : Rebuilt heap middle tree between)
    (same : refs between = refs tree) (last : Rebuilt middle after between built) :
    Rebuilt heap after tree built := by
  have next : middle.next = heap.next := by
    apply Nat.le_antisymm _ first.next
    apply Nat.le_of_not_lt
    intro grown
    have new := (first.created heap.next).mpr ⟨Nat.le_refl _, grown⟩
    rw [same] at new
    exact new.2 new.1
  have log : middle.destroyed = heap.destroyed := by
    obtain ⟨list, log, _, members⟩ := first.destroyed
    rw [same] at members
    have none : list = [] := List.eq_nil_iff_forall_not_mem.mpr fun ref member =>
      ((members ref).mp member).2 ((members ref).mp member).1
    rw [log, none, List.nil_append]
  have ⟨linked, unique, grows, created, gone, others, destroyed⟩ := last
  rw [same] at created gone others destroyed
  rw [next] at grows created
  rw [log] at destroyed
  refine ⟨linked, unique, grows, created, gone, fun ref notTree out => ?_, destroyed⟩
  rw [others ref notTree out, first.others ref notTree (same ▸ notTree)]

theorem relabel_spec (linked : Linked heap.links (plug path (.node label left right)))
    (unique : (refs (plug path (.node label left right))).Nodup) (value : α) :
    ∃ after, heap.modify label.1 (fun contents => { contents with value }) = .ok after ∧
    after.next = heap.next ∧
      Rebuilt heap after (plug path (.node label left right))
        (plug path (.node (label.1, value) left right)) ∧
      after.parents = heap.parents := by
  have ⟨linkedPath, linkedNode⟩ := linked_plug.mp linked
  obtain ⟨_, uniqueNode, apart⟩ := nodup_plug.mp unique
  obtain ⟨_, _, outLeft, outRight, _⟩ := nodup_node uniqueNode
  obtain ⟨contents, here, same⟩ := present linkedNode.1
  have leftRef : contents.left = rootOf left := congrArg Links.left same
  have rightRef : contents.right = rootOf right := congrArg Links.right same
  have sameRefs : refs (plug path (.node (label.1, value) left right)) =
    refs (plug path (.node label left right)) := by
    simp only [refs_plug, refs_node]
  have inNode : label.1 ∈ refs (.node label left right) := by simp [refs_node]
  have others : ∀ ref, ref ≠ label.1 → (heap.put label.1 { contents with value }).links ref =
    heap.links ref :=
    fun ref other => links_congr (put_other heap _ other)
  refine ⟨_, modify_present here _, rfl,
    ⟨linked_plug.mpr ⟨?_, ?_, ?_, ?_⟩, sameRefs ▸ unique, Nat.le_refl _, fun ref => ?_,
    fun ref inTree out => ?_, fun ref notTree _ => ?_, [], rfl, .nil, fun ref => ?_⟩, ?_⟩
  · apply linkedPath.congr
    intro ref member
    apply others
    rintro rfl
    exact apart _ inNode member
  · rw [put_links, Function.update_self, leftRef, rightRef]
  · apply linkedNode.2.1.congr
    intro ref member
    apply others
    rintro rfl
    exact outLeft member
  · apply linkedNode.2.2.congr
    intro ref member
    apply others
    rintro rfl
    exact outRight member
  · rw [sameRefs]
    constructor
    · exact fun ⟨inside, outside⟩ => absurd inside outside
    · exact fun ⟨low, high⟩ => absurd high (Nat.not_lt.mpr low)
  · rw [sameRefs] at out
    exact absurd inTree out
  · apply put_other
    rintro rfl
    exact notTree (mem_refs_plug.mpr (.inl inNode))
  · rw [sameRefs]
    simp
  · have kept : some contents.parent = heap.parents label.1 := by
      rw [parents, here, Option.map_some]
    rw [put_parents, kept, Function.update_eq_self]

structure Grown (heap after : NodeHeap α) (path : List (Frame (NodeRef × α)))
    (value : α) : Prop where
  next : after.next = heap.next + 1
  destroyed : after.destroyed = heap.destroyed
  linked : LinkedPath after.links path (some heap.next)
  leaf : after.links heap.next = some ⟨value, none, none⟩
  parent : after.parents heap.next = some (holder path)
  parents : ∀ ref, ref ≠ heap.next → after.parents ref = heap.parents ref
  nodes : ∀ ref, ref ∉ pathRefs path → ref ≠ heap.next → after.nodes ref = heap.nodes ref

private theorem Grown.rebuilt (grown : Grown heap after path key) (unique : (pathRefs path).Nodup)
    (old : ∀ ref ∈ pathRefs path, ref < heap.next) :
    Rebuilt heap after (plug path .nil) (plug path (.node (heap.next, key) .nil .nil)) := by
  have notPath : heap.next ∉ pathRefs path := fun member => Nat.lt_irrefl _ (old _ member)
  have alone : ∀ ref, ref ∈ refs (.node (heap.next, key) .nil .nil) ↔ ref = heap.next :=
    fun ref => List.mem_singleton
  have inTree : ∀ ref, ref ∈ refs (plug path (.nil : BinaryTree (NodeRef × α))) ↔
    ref ∈ pathRefs path := by
    simp [mem_refs_plug]
  refine ⟨linked_plug.mpr ⟨grown.linked, grown.leaf, trivial, trivial⟩,
    nodup_plug.mpr ⟨unique, List.nodup_singleton _, ?_⟩,
    grown.next ▸ Nat.le_succ _, fun ref => ?_, fun ref member out => ?_, fun ref notTree out =>
      ?_, [], grown.destroyed, .nil,
    fun ref => ?_⟩
  · intro ref member
    rw [(alone ref).mp member]
    exact notPath
  · rw [mem_refs_plug, alone, inTree, grown.next, Nat.lt_succ_iff]
    constructor
    · rintro ⟨rfl | member, out⟩
      · exact ⟨Nat.le_refl _, Nat.le_refl _⟩
      · exact absurd member out
    · rintro ⟨low, high⟩
      obtain rfl := Nat.le_antisymm high low
      exact ⟨.inl rfl, notPath⟩
  · rw [inTree] at member
    exact absurd (mem_refs_plug.mpr (.inr member)) out
  · rw [mem_refs_plug, alone, not_or] at out
    exact grown.nodes ref out.2 out.1
  · rw [inTree]
    constructor
    · exact nofun
    · exact fun ⟨member, out⟩ => absurd (mem_refs_plug.mpr (.inr member)) out

private theorem Grown.parented (grown : Grown heap after path key)
    (old : ∀ ref ∈ pathRefs path, ref < heap.next)
    (parented : ParentedPath heap.parents path) :
    Parented after.parents none (plug path (.node (heap.next, key) .nil .nil)) := by
  refine parented_plug.mpr ⟨parented.congr fun ref member => ?_, grown.parent, trivial, trivial⟩
  apply grown.parents
  rintro rfl
  exact Nat.lt_irrefl _ (old _ member)

theorem create_grown (heap : NodeHeap α) (value : α) :
    Grown heap (heap.create value).2 [] value := by
  refine ⟨rfl, rfl, trivial, ?_, ?_, fun ref other => ?_, fun ref _ other => ?_⟩
  · exact congrFun (put_links heap heap.next _) heap.next |>.trans (Function.update_self ..)
  · exact congrFun (put_parents heap heap.next _) heap.next |>.trans (Function.update_self ..)
  · exact parents_congr (put_other heap _ other)
  · exact put_other heap _ other

private theorem attach_spec {frame : Frame (NodeRef × α)} {rest : List (Frame (NodeRef × α))}
    {contents : Node α}
    (change : Node α → Node α) (linked : LinkedPath heap.links (frame :: rest) none)
    (unique : (pathRefs (frame :: rest)).Nodup)
    (old : ∀ ref ∈ pathRefs (frame :: rest), ref < heap.next)
    (here : heap.nodes frame.label.1 = some contents)
    (links : (change contents).toLinks = frame.links (some heap.next))
    (parent : (change contents).parent = contents.parent) (value : α) :
    ∃ middle after, (heap.create value).2.modify frame.label.1 change = .ok middle ∧
      middle.modify heap.next (fun contents => { contents with parent := some frame.label.1 }) = .ok after ∧
      Grown heap after (frame :: rest) value := by
  have inPath : frame.label.1 ∈ pathRefs (frame :: rest) :=
    (pathRefs_cons frame rest).mpr (.inl rfl)
  have different : frame.label.1 ≠ heap.next := Nat.ne_of_lt (old _ inPath)
  have created := create_grown heap value
  have kept : (heap.create value).2.nodes frame.label.1 = some contents := by
    rw [created.nodes _ List.not_mem_nil different, here]
  obtain ⟨leaf, leafHere, leafSame⟩ := present created.leaf
  have leafKept : ((heap.create value).2.put frame.label.1 (change contents)).nodes heap.next =
    some leaf := by
    rw [put_other _ _ different.symm, leafHere]
  refine ⟨_, _, modify_present kept change, modify_present leafKept _, rfl, rfl, ?_, ?_, ?_,
    fun ref other => ?_,
    fun ref out other => ?_⟩
  · apply linked.refill unique
    · rw [put_links, Function.update_of_ne different, put_links, Function.update_self, links]
    · intro ref member other
      have notNext : ref ≠ heap.next := Nat.ne_of_lt (old ref member)
      rw [put_links, Function.update_of_ne notNext, put_links, Function.update_of_ne other]
      exact links_congr (created.nodes ref List.not_mem_nil notNext)
  · rw [put_links, Function.update_self]
    exact congrArg some leafSame
  · rw [put_parents, Function.update_self]
    rfl
  · rw [put_parents, Function.update_of_ne other, put_parents, Function.update_apply]
    split
    next isLabel => rw [isLabel, parents, here, parent, Option.map_some]
    next => exact created.parents ref other
  · have notLabel : ref ≠ frame.label.1 := by
      rintro rfl
      exact out inPath
    rw [put_other _ _ other, put_other _ _ notLabel, created.nodes ref List.not_mem_nil other]

/-- The set refers to the tree, which is a search tree. -/
structure Holds (order : Comparison α) (heap : NodeHeap α) (set : SortedSet)
    (tree : BinaryTree (NodeRef × α)) : Prop where
  root : set.root = rootOf tree
  size : set.size = (Library.inorder tree).length
  linked : Linked heap.links tree
  sorted : Sorted order (values tree)
  unique : (refs tree).Nodup
  old : ∀ ref ∈ refs tree, ref < heap.next

namespace Holds

/-- A node heap has handed out enough references for every walk through the tree. -/
theorem enough (holds : Holds order heap set tree) : (Library.inorder tree).length ≤ heap.next := by
  have inside : refs tree ⊆ List.range heap.next :=
    fun ref member => List.mem_range.mpr (holds.old ref member)
  have short := (List.subperm_of_subset holds.unique inside).length_le
  rwa [List.length_range, length_refs] at short

theorem search (holds : Holds order heap set tree) (strict : order.Strict) (key : α) :
    ∃ found rest, plug found rest = tree ∧ Located order key found rest ∧
      searchImpl order heap key heap.next none set.root = .ok (rootOf rest, holder found) := by
  have below : ∀ label ∈ before ([] : List (Frame (NodeRef × α))), order.less label.2 key := nofun
  have above : ∀ label ∈ after ([] : List (Frame (NodeRef × α))), order.less key label.2 := nofun
  rw [holds.root]
  exact searchImpl_spec strict holds.linked holds.sorted holds.enough below above

end Holds

/-- What an operation gives back: another tree with the values of the list. It keeps
parents right under the condition, and only then. -/
structure Becomes (order : Comparison α) (heap : NodeHeap α) (tree : BinaryTree (NodeRef × α))
    (list : List α)
    (condition : Prop) (result : NodeHeap α × SortedSet)
    (built : BinaryTree (NodeRef × α)) : Prop where
  holds : Holds order result.1 result.2 built
  rebuilt : Rebuilt heap result.1 tree built
  values : values built = list
  parented : Parented heap.parents none tree → (Parented result.1.parents none built ↔ condition)

theorem Rebuilt.becomes {list : List α} {condition : Prop} {result : NodeHeap α × SortedSet}
    (rebuilt : Rebuilt heap result.1 tree built) (holds : Holds order heap set tree)
    (sorted : Sorted order list)
    (same : values built = list) (root : result.2.root = rootOf built)
    (size : result.2.size = list.length)
    (parented : Parented heap.parents none tree → (Parented result.1.parents none built ↔ condition)) :
    Becomes order heap tree list condition result built := by
  refine ⟨⟨root, ?_, rebuilt.linked, same ▸ sorted, rebuilt.unique, fun ref member => ?_⟩, rebuilt,
    same, parented⟩
  · rw [size, ← same, length_values]
  · by_cases was : ref ∈ refs tree
    · exact Nat.lt_of_lt_of_le (holds.old ref was) rebuilt.next
    · exact ((rebuilt.created ref).mp ⟨member, was⟩).2

/-- The value is equivalent to the one of the root, which has exactly one child. -/
def removesTop (order : Comparison α) (heap : NodeHeap α) (set : SortedSet) (value : α) : Bool :=
  match set.root.bind heap.nodes with
  | some contents =>
      order.equivalent value contents.value && (contents.left.isNone != contents.right.isNone)
  | none => false

theorem removesTop_node (holds : Holds order heap set (.node label left right)) (value : α) :
    removesTop order heap set value =
      (order.equivalent value label.2 && ((rootOf left).isNone != (rootOf right).isNone)) := by
  obtain ⟨contents, here, same⟩ := present holds.linked.1
  have valueRef : contents.value = label.2 := congrArg Links.value same
  have leftRef : contents.left = rootOf left := congrArg Links.left same
  have rightRef : contents.right = rootOf right := congrArg Links.right same
  simp only [removesTop, holds.root, rootOf_node, Option.bind_some, here, valueRef,
    leftRef, rightRef]

/-- The value of the root is not equivalent to the key of a place below it. -/
theorem removesTop_below {rest : BinaryTree (NodeRef × α)}
    (holds : Holds order heap set (plug path rest)) (strict : order.Strict)
    (located : Located order key path rest) (below : path ≠ []) :
    removesTop order heap set key = false := by
  obtain ⟨label, left, right, same, member⟩ := plug_root below rest
  have far : order.equivalent key label.2 = false := by
    rw [Bool.eq_false_iff]
    intro equivalent
    have ⟨notLess, notGreater⟩ := strict.equivalent_iff.mp equivalent
    obtain low | high := List.mem_append.mp member
    · rw [located.below label low] at notGreater
      cases notGreater
    · rw [located.above label high] at notLess
      cases notLess
  rw [same] at holds
  rw [removesTop_node holds, far, Bool.false_and]

theorem insertImpl_spec (holds : Holds order heap set tree) (strict : order.Strict) (value : α) :
    ∃ result built below same above, set.insertImpl order heap value = .ok result ∧
      Splits order value (values tree) below same above ∧
      Becomes order heap tree (below ++ value :: above) True result built := by
  obtain ⟨found, rest, rfl, located, searched⟩ := holds.search strict value
  have ⟨linkedPath, linkedRest⟩ := linked_plug.mp holds.linked
  obtain ⟨uniquePath, _, _⟩ := nodup_plug.mp holds.unique
  have oldPath : ∀ ref ∈ pathRefs found, ref < heap.next :=
    fun ref member => holds.old ref (mem_refs_plug.mpr (.inr member))
  simp only [insertImpl, searched, bind, Except.bind]
  cases rest with
  | node label left right =>
    have splits := located.splits_node strict holds.sorted
    obtain ⟨after, ran, _, rebuilt, parents⟩ := relabel_spec holds.linked holds.unique value
    refine ⟨(after, set), _, _, _, _, ?_, splits,
      rebuilt.becomes holds (splits.sorted_inserted strict holds.sorted) ?_ ?_ ?_ ?_⟩
    · simp only [rootOf_node, ran]
    · simp [values_plug, values_node]
    · rw [holds.root]
      apply rootOf_plug
      exact fun _ => rfl
    · rw [holds.size, ← length_values, splits.whole]
      simp
    · intro parented
      have ⟨parentedPath, parentedNode⟩ := parented_plug.mp parented
      rw [parents]
      exact iff_true_intro (parented_plug.mpr ⟨parentedPath, parentedNode⟩)
  | nil =>
    have splits := located.splits_nil
    have sorted := splits.sorted_inserted strict holds.sorted
    have size : set.size + 1 = ((before found).map Prod.snd ++ value :: (after found).map Prod.snd).length := by
      rw [holds.size, ← length_values, splits.whole]
      simp
      omega
    have valuesBuilt : values (plug found (.node (heap.next, value) .nil .nil)) =
        (before found).map Prod.snd ++ value :: (after found).map Prod.snd := by
      simp [values_plug, values_node]
    cases found with
    | nil =>
      have grown := create_grown heap value
      refine ⟨((heap.create value).2, ⟨some heap.next, set.size + 1⟩), _, _, _, _, rfl, splits,
        (grown.rebuilt uniquePath oldPath).becomes holds sorted valuesBuilt rfl size ?_⟩
      exact fun _ => iff_true_intro (grown.parented oldPath trivial)
    | cons frame outer =>
      obtain ⟨contents, here, links⟩ := present linkedPath.1
      have top : set.root = rootOf (plug (frame :: outer) (.node (heap.next, value) .nil .nil)) := by
        rw [holds.root]
        apply rootOf_plug
        exact nofun
      cases frame with
      | left label sibling =>
        have less : order.less value label.2 := located.above label (by simp [after, Frame.after])
        have valueRef : contents.value = label.2 := congrArg Links.value links
        have leftRef : contents.left = none := congrArg Links.left links
        have rightRef : contents.right = rootOf sibling := congrArg Links.right links
        have changed : ({ contents with left := some heap.next } : Node α).toLinks =
            (Frame.left label sibling).links (some heap.next) := by
          simp [Frame.links, valueRef, rightRef]
        obtain ⟨middle, after, changedParent, changedLeaf, grown⟩ := attach_spec
          (fun contents => { contents with left := some heap.next }) linkedPath uniquePath oldPath
            here changed rfl value
        refine ⟨(after, { set with size := set.size + 1 }), _, _, _, _, ?_, splits,
          (grown.rebuilt uniquePath oldPath).becomes holds sorted valuesBuilt top size ?_⟩
        · simp only [Frame.label] at here changedParent changedLeaf
          have created : (heap.create value).1 = heap.next := rfl
          simp only [rootOf_nil, holder, Frame.label, load_present here, valueRef, less, leftRef,
            if_true, created, changedParent,
            changedLeaf]
        · exact fun parented =>
            iff_true_intro (grown.parented oldPath (parented_plug.mp parented).1)
      | right label sibling =>
        have less : order.less label.2 value := located.below label (by simp [before, Frame.before])
        have greater : order.greater value label.2 := (strict.converse value label.2).trans less
        have notLess : order.less value label.2 = false := strict.asymm less
        have valueRef : contents.value = label.2 := congrArg Links.value links
        have leftRef : contents.left = rootOf sibling := congrArg Links.left links
        have rightRef : contents.right = none := congrArg Links.right links
        have changed : ({ contents with right := some heap.next } : Node α).toLinks =
            (Frame.right label sibling).links (some heap.next) := by
          simp [Frame.links, valueRef, leftRef]
        obtain ⟨middle, after, changedParent, changedLeaf, grown⟩ := attach_spec
          (fun contents => { contents with right := some heap.next }) linkedPath uniquePath oldPath
            here changed rfl value
        refine ⟨(after, { set with size := set.size + 1 }), _, _, _, _, ?_, splits,
          (grown.rebuilt uniquePath oldPath).becomes holds sorted valuesBuilt top size ?_⟩
        · simp only [Frame.label] at here changedParent changedLeaf
          have created : (heap.create value).1 = heap.next := rfl
          simp only [rootOf_nil, holder, Frame.label, load_present here, valueRef, notLess, greater,
            rightRef, if_true, created, changedParent,
            changedLeaf, Bool.false_eq_true, if_false]
        · exact fun parented =>
            iff_true_intro (grown.parented oldPath (parented_plug.mp parented).1)

private theorem clear_spec (holds : Holds order heap set tree) :
    ∃ result, set.clear heap = .ok result ∧ Becomes order heap tree [] True result .nil := by
  obtain ⟨after, ran, deleted⟩ := delete_spec holds.linked holds.unique holds.enough
  obtain ⟨gone, log, perm⟩ := deleted.destroyed
  have rebuilt : Rebuilt heap after tree .nil := by
    refine ⟨trivial, .nil, Nat.le_of_eq deleted.next.symm, fun ref => ?_, fun ref member _ => ?_,
      fun ref out _ => ?_, gone, log,
      perm.nodup_iff.mpr holds.unique, fun ref => ?_⟩
    · rw [deleted.next]
      constructor
      · exact fun ⟨inside, _⟩ => nomatch inside
      · exact fun ⟨low, high⟩ => absurd high (Nat.not_lt.mpr low)
    · rw [deleted.nodes, if_pos member]
    · rw [deleted.nodes, if_neg out]
    · simp [perm.mem_iff]
  refine ⟨(after, construct), ?_,
    rebuilt.becomes holds .nil rfl rfl rfl fun _ => iff_true_intro trivial⟩
  rw [← holds.root] at ran
  simp only [clear, ran, bind, Except.bind]

/-- A node that has at most one subtree is taken out of the tree of a set. -/
theorem removeImpl_becomes {rest : BinaryTree (NodeRef × α)} {list : List α} {condition : Prop}
    (holds : Holds order heap set (plug path (.node label left right)))
    (single : left = .nil ∧ rest = right ∨ right = .nil ∧ rest = left)
    (sorted : Sorted order list) (same : values (plug path rest) = list)
    (settled : (path = [] → rest = .nil) ↔ condition) :
    ∃ result, removeImpl heap set label.1 (holder path) = .ok result ∧
      Becomes order heap (plug path (.node label left right)) list condition result
        (plug path rest) := by
  obtain ⟨after, ran, rebuilt, parented⟩ :=
    removeImpl_spec holds.linked holds.unique holds.old holds.root single
  refine ⟨_, ran, rebuilt.becomes holds sorted same rfl ?_ fun before => (parented before).trans settled⟩
  rw [holds.size, ← same, length_values]
  obtain ⟨rfl, rfl⟩ | ⟨rfl, rfl⟩ := single
  · simp [inorder_plug, Library.inorder]
  · simp [inorder_plug, Library.inorder]
    omega

/-- The smallest value of the right subtree moves up, and its node goes. -/
theorem remove_inner {least : NodeRef × α} {beside : BinaryTree (NodeRef × α)}
    {frames : List (Frame (NodeRef × α))}
    (holds : Holds order heap set (plug path (.node label left (plug frames (.node least .nil beside)))))
    (first : before frames = []) {list : List α} (sorted : Sorted order list)
    (same : list = (before path).map Prod.snd ++ values left ++
      (values (plug frames (.node least .nil beside)) ++ (Library.after path).map Prod.snd))
      {condition : Prop} (holding : condition) :
    ∃ middle result built, heap.modify label.1 (fun contents => { contents with value := least.2 }) = .ok middle ∧
      removeImpl middle set least.1 (holder (frames ++ .right label left :: path)) = .ok result ∧
      Becomes order heap (plug path (.node label left (plug frames (.node least .nil beside)))) list
        condition result built := by
  obtain ⟨middle, ran, next, relabelled, parents⟩ := relabel_spec holds.linked holds.unique least.2
  have moved : plug path (.node (label.1, least.2) left (plug frames (.node least .nil beside))) =
      plug (frames ++ .right (label.1, least.2) left :: path) (.node least .nil beside) := by
    rw [plug_append]
    rfl
  have sameRefs : refs (plug path (.node (label.1, least.2) left (plug frames (.node least .nil beside)))) =
      refs (plug path (.node label left (plug frames (.node least .nil beside)))) := by
    simp only [refs_plug, refs_node]
  have held : holder (frames ++ .right label left :: path) =
    holder (frames ++ .right (label.1, least.2) left :: path) := by
    cases frames <;> rfl
  have old : ∀ ref ∈ refs (plug path (.node (label.1, least.2) left (plug frames (.node least .nil beside)))),
      ref < middle.next := by
    rw [sameRefs, next]
    exact holds.old
  have root : set.root = rootOf (plug path (.node (label.1, least.2) left (plug frames (.node least .nil beside)))) := by
    rw [holds.root]
    apply rootOf_plug
    exact fun _ => rfl
  have linked := relabelled.linked
  have unique := relabelled.unique
  rw [moved] at linked unique old root
  obtain ⟨after, removed, rebuilt, parented⟩ :=
    removeImpl_spec linked unique old root (.inl ⟨rfl, rfl⟩)
  rw [← moved] at rebuilt parented
  have whole : values (plug (frames ++ .right (label.1, least.2) left :: path) beside) = list := by
    rw [same, values_plug, values_plug, values_node, before_append, after_append, first]
    simp [before, Library.after, Frame.before, Frame.after, values, Library.inorder]
  refine ⟨middle, _, _, ran, held ▸ removed,
    (relabelled.after_values sameRefs rebuilt).becomes holds sorted whole rfl ?_ ?_⟩
  · rw [holds.size, ← length_values, same]
    simp [values_plug, values_node]
    omega
  · intro before
    obtain ⟨parentedPath, parentedNode⟩ := parented_plug.mp before
    rw [parents] at parented
    refine (parented (parented_plug.mpr ⟨parentedPath, parentedNode⟩)).trans
      (iff_of_true ?_ holding)
    intro empty
    cases frames <;> cases empty

private theorem remove_spec (holds : Holds order heap set tree) (strict : order.Strict)
    (value : α) :
    ∃ result built below same above, set.remove order heap value = .ok result ∧
      Splits order value (values tree) below same above ∧
      Becomes order heap tree (below ++ above) (removesTop order heap set value =
        false) result built := by
  obtain ⟨found, rest, rfl, located, searched⟩ := holds.search strict value
  simp only [remove, searched, bind, Except.bind]
  cases rest with
  | nil =>
    have splits := located.splits_nil
    have unchanged : Rebuilt heap heap (plug found .nil) (plug found .nil) := by
      refine ⟨holds.linked, holds.unique, Nat.le_refl _, fun ref => ?_,
        fun ref inside out => absurd inside out, fun _ _ _ => rfl, [],
        rfl, .nil, fun ref => ?_⟩
      · constructor
        · rintro ⟨inside, out⟩
          exact absurd inside out
        · rintro ⟨low, high⟩
          exact absurd high (Nat.not_lt.mpr low)
      · simp
    have kept : values (plug found .nil) = (before found).map Prod.snd ++
      (after found).map Prod.snd := by
      rw [values_plug, values_nil, List.append_nil]
    refine ⟨(heap, set), _, _, _, _, rfl, splits,
      unchanged.becomes holds (splits.sorted_removed holds.sorted) kept holds.root ?_
      fun parented => iff_of_true parented ?_⟩
    · rw [holds.size, ← length_values, kept]
    · by_cases top : found = []
      · subst top
        simp only [removesTop, holds.root, plug, rootOf_nil, Option.bind_none]
      · exact removesTop_below holds strict located top
  | node label left right =>
    have splits := located.splits_node strict holds.sorted
    have sorted := splits.sorted_removed holds.sorted
    obtain ⟨linkedPath, linkedNode⟩ := linked_plug.mp holds.linked
    obtain ⟨contents, here, same⟩ := present linkedNode.1
    have leftRef : contents.left = rootOf left := congrArg Links.left same
    have rightRef : contents.right = rootOf right := congrArg Links.right same
    simp only [rootOf_node, load_present here, leftRef, rightRef]
    have settled : ∀ {rest}, left = .nil ∧ rest = right ∨ right = .nil ∧ rest = left →
        ((found = [] → rest = .nil) ↔ removesTop order heap set value = false) := by
      intro rest single
      by_cases top : found = []
      · subst top
        rw [removesTop_node holds, located.here label left right rfl, Bool.true_and]
        obtain ⟨rfl, rfl⟩ | ⟨rfl, rfl⟩ := single
        · cases rest <;> simp
        · cases rest <;> simp
      · exact iff_of_true (fun empty => absurd empty top)
          (removesTop_below holds strict located top)
    cases left with
    | nil =>
      obtain ⟨result, ran, becomes⟩ := removeImpl_becomes holds (.inl ⟨rfl, rfl⟩) sorted
        (by simp [values_plug]) (settled (.inl ⟨rfl, rfl⟩))
      exact ⟨result, _, _, _, _, by simpa using ran, splits, becomes⟩
    | node leftLabel leftLeft leftRight =>
      cases right with
      | nil =>
        obtain ⟨result, ran, becomes⟩ := removeImpl_becomes holds (.inr ⟨rfl, rfl⟩) sorted
          (by simp [values_plug]) (settled (.inr ⟨rfl, rfl⟩))
        exact ⟨result, _, _, _, _, by simpa using ran, splits, becomes⟩
      | node rightLabel rightLeft rightRight =>
        have enough : (Library.inorder (.node rightLabel rightLeft rightRight)).length ≤
          heap.next := by
          have whole := holds.enough
          simp only [inorder_plug, Library.inorder, List.length_append, List.length_cons] at whole ⊢
          omega
        have free : removesTop order heap set value = false := by
          by_cases top : found = []
          · subst top
            rw [removesTop_node holds]
            simp
          · exact removesTop_below holds strict located top
        obtain ⟨frames, least, beside, shape, first, reached⟩ := minImpl_spec linkedNode.2.2 enough
        rw [← shape] at holds splits sorted linkedNode
        obtain ⟨leastContents, leastHere, leastSame⟩ := present (linked_plug.mp linkedNode.2.2).2.1
        have leastValue : leastContents.value = least.2 := congrArg Links.value leastSame
        obtain ⟨middle, result, built, relabelled, ran, becomes⟩ :=
          remove_inner holds first sorted rfl free
        have walked : minImpl heap heap.next (some rightLabel.1) (some label.1) = .ok _ :=
          reached (.right label (.node leftLabel leftLeft leftRight) :: found)
        rw [shape] at becomes splits
        refine ⟨result, built, _, _, _, ?_, splits, becomes⟩
        simp only [rootOf_node, reduceCtorEq, or_self, if_false, walked, load_present leastHere,
          leastValue, relabelled, ran]

end SortedSet

namespace SortedSets
open SortedSet
variable {order : Comparison α} {state : SortedSets α} {trees : SetId → BinaryTree (NodeRef × α)}

def removesTop (order : Comparison α) (state : SortedSets α) : SetEvent α → Bool
  | .remove set value => (state.sets set).removesTop order state.heap value
  | _ => false

/-- Every set has its tree, no node is in two of them, and a node that is in none has been
destroyed once. -/
structure Represents (order : Comparison α) (state : SortedSets α)
    (trees : SetId → BinaryTree (NodeRef × α)) : Prop where
  holds : ∀ set, Holds order state.heap (state.sets set) (trees set)
  apart : ∀ {set other ref}, ref ∈ refs (trees set) → ref ∈ refs (trees other) → set = other
  alive : ∀ ref, state.heap.nodes ref ≠ none → ∃ set, ref ∈ refs (trees set)
  once : state.heap.destroyed.Nodup
  destroyed : ∀ ref, ref ∈ state.heap.destroyed ↔
    ref < state.heap.next ∧ ∀ set, ref ∉ refs (trees set)

/-- Every node refers to its parent, and no root to any. -/
def Parents (state : SortedSets α) (trees : SetId → BinaryTree (NodeRef × α)) : Prop :=
  ∀ set, Parented state.heap.parents none (trees set)

namespace Represents
variable {set : SetId} {list : List α} {condition : Prop} {result : NodeHeap α × SortedSet}
  {built : BinaryTree (NodeRef × α)}

theorem initial : Represents order (.initial : SortedSets α) fun _ => .nil where
  holds _ := ⟨rfl, rfl, trivial, .nil, .nil, nofun⟩
  apart := nofun
  alive _ present := absurd rfl present
  once := .nil
  destroyed _ := ⟨nofun, fun ⟨old, _⟩ => absurd old (Nat.not_lt_zero _)⟩

theorem frame (represents : Represents order state trees)
    (becomes : Becomes order state.heap (trees set) list condition result built)
    {other : SetId} (different : other ≠ set) : ∀ ref ∈ refs (trees other), ref ∉ refs built ∧
      result.1.nodes ref = state.heap.nodes ref := by
  intro ref member
  have notTree : ref ∉ refs (trees set) := fun inTree => different (represents.apart member inTree)
  have notBuilt : ref ∉ refs built := by
    intro inBuilt
    have new := ((becomes.rebuilt.created ref).mp ⟨inBuilt, notTree⟩).1
    exact absurd ((represents.holds other).old ref member) (Nat.not_lt.mpr new)
  exact ⟨notBuilt, becomes.rebuilt.others ref notTree notBuilt⟩

theorem replace (represents : Represents order state trees)
    (becomes : Becomes order state.heap (trees set) list condition result built) :
    Represents order (state.replace set result) (Function.update trees set built) := by
  have ⟨_, rebuilt, _, _⟩ := becomes
  obtain ⟨gone, log, onceGone, members⟩ := rebuilt.destroyed
  refine ⟨fun other => ?_, fun {first second ref} inFirst inSecond => ?_, fun ref present => ?_,
    ?_, fun ref => ?_⟩
  · by_cases same : other = set
    · subst same
      simpa [SortedSets.replace] using becomes.holds
    · have before := represents.holds other
      simp only [SortedSets.replace, Function.update_of_ne same]
      refine ⟨before.root, before.size, before.linked.congr ?_, before.sorted, before.unique,
        fun ref member => ?_⟩
      · exact fun ref member => links_congr (represents.frame becomes same ref member).2
      · exact Nat.lt_of_lt_of_le (before.old ref member) rebuilt.next
  · by_cases isFirst : first = set
    · by_cases isSecond : second = set
      · exact isFirst.trans isSecond.symm
      · rw [isFirst, Function.update_self] at inFirst
        rw [Function.update_of_ne isSecond] at inSecond
        exact absurd inFirst (represents.frame becomes isSecond ref inSecond).1
    · rw [Function.update_of_ne isFirst] at inFirst
      by_cases isSecond : second = set
      · rw [isSecond, Function.update_self] at inSecond
        exact absurd inSecond (represents.frame becomes isFirst ref inFirst).1
      · rw [Function.update_of_ne isSecond] at inSecond
        exact represents.apart inFirst inSecond
  · by_cases inBuilt : ref ∈ refs built
    · exact ⟨set, by rwa [Function.update_self]⟩
    · by_cases inTree : ref ∈ refs (trees set)
      · exact absurd (rebuilt.gone ref inTree inBuilt) present
      · have before : state.heap.nodes ref ≠ none := rebuilt.others ref inTree inBuilt ▸ present
        obtain ⟨other, member⟩ := represents.alive ref before
        have different : other ≠ set := by
          rintro rfl
          exact inTree member
        exact ⟨other, by rwa [Function.update_of_ne different]⟩
  · change result.1.destroyed.Nodup
    rw [log]
    refine onceGone.append represents.once fun ref inGone before => ?_
    exact ((represents.destroyed ref).mp before).2 set ((members ref).mp inGone).1
  · change ref ∈ result.1.destroyed ↔ ref < result.1.next ∧ _
    rw [log, List.mem_append, members, represents.destroyed]
    constructor
    · rintro (⟨inTree, out⟩ | ⟨old, nowhere⟩)
      · refine ⟨Nat.lt_of_lt_of_le ((represents.holds set).old ref inTree) rebuilt.next,
          fun other => ?_⟩
        by_cases same : other = set
        · rwa [same, Function.update_self]
        · rw [Function.update_of_ne same]
          exact fun member => same (represents.apart member inTree)
      · refine ⟨Nat.lt_of_lt_of_le old rebuilt.next, fun other => ?_⟩
        by_cases same : other = set
        · rw [same, Function.update_self]
          intro inBuilt
          exact absurd old (Nat.not_lt.mpr ((rebuilt.created ref).mp ⟨inBuilt, nowhere set⟩).1)
        · rw [Function.update_of_ne same]
          exact nowhere other
    · rintro ⟨old, nowhere⟩
      have out : ref ∉ refs built := by simpa using nowhere set
      by_cases inTree : ref ∈ refs (trees set)
      · exact .inl ⟨inTree, out⟩
      · refine .inr ⟨?_, fun other member => ?_⟩
        · apply Nat.lt_of_not_le
          exact fun new => out ((rebuilt.created ref).mpr ⟨new, old⟩).1
        · by_cases same : other = set
          · exact inTree (same ▸ member)
          · have elsewhere := nowhere other
            rw [Function.update_of_ne same] at elsewhere
            exact elsewhere member

theorem replace_parents (represents : Represents order state trees)
    (becomes : Becomes order state.heap (trees set) list condition result built)
    (parents : state.Parents trees) :
    (state.replace set result).Parents (Function.update trees set built) ↔ condition := by
  rw [← becomes.parented (parents set)]
  constructor
  · intro kept
    have here := kept set
    rwa [Function.update_self] at here
  · intro here other
    by_cases same : other = set
    · rwa [same, Function.update_self]
    · rw [Function.update_of_ne same]
      apply (parents other).congr
      exact fun ref member => parents_congr (represents.frame becomes same ref member).2

/-- A cleared set takes over the tree of another one, which becomes empty. -/
theorem exchange (represents : Represents order state trees) {target : SetId} (source : SetId)
    (empty : trees target = .nil) :
    Represents order ((state.replace source (state.heap, .construct)).replace target (state.heap,
      state.sets source))
      (Function.update (Function.update trees source .nil) target (trees source)) := by
  have members : ∀ {set ref}, ref ∈ refs (Function.update (Function.update trees source .nil) target (trees source) set) ↔
      (set = target ∧ ref ∈ refs (trees source)) ∨
        (set ≠ target ∧ set ≠ source ∧ ref ∈ refs (trees set)) := by
    intro set ref
    by_cases isTarget : set = target
    · simp [isTarget]
    · by_cases isSource : set = source
      · subst isSource
        simp [isTarget]
      · simp [isTarget, isSource]
  have somewhere : ∀ ref, (∃ set,
    ref ∈ refs (Function.update (Function.update trees source .nil) target (trees source) set)) ↔
      ∃ set, ref ∈ refs (trees set) := by
    intro ref
    constructor
    · rintro ⟨set, member⟩
      obtain ⟨_, inSource⟩ | ⟨_, _, kept⟩ := members.mp member
      · exact ⟨source, inSource⟩
      · exact ⟨set, kept⟩
    · rintro ⟨set, member⟩
      by_cases isSource : set = source
      · exact ⟨target, members.mpr (.inl ⟨rfl, isSource ▸ member⟩)⟩
      · refine ⟨set, members.mpr (.inr ⟨?_, isSource, member⟩)⟩
        rintro rfl
        rw [empty] at member
        cases member
  refine ⟨fun set => ?_, fun {first second ref} inFirst inSecond => ?_, fun ref present => ?_,
    represents.once, fun ref => ?_⟩
  · simp only [SortedSets.replace, Function.update_apply]
    split
    next => exact represents.holds source
    next =>
      split
      next => exact ⟨rfl, rfl, trivial, .nil, .nil, nofun⟩
      next => exact represents.holds set
  · obtain ⟨isTarget, inSource⟩ | ⟨_, notSource, kept⟩ := members.mp inFirst
    · obtain ⟨isTarget', _⟩ | ⟨_, notSource, kept⟩ := members.mp inSecond
      · exact isTarget.trans isTarget'.symm
      · exact absurd (represents.apart kept inSource) notSource
    · obtain ⟨_, inSource⟩ | ⟨_, _, other⟩ := members.mp inSecond
      · exact absurd (represents.apart kept inSource) notSource
      · exact represents.apart kept other
  · exact (somewhere ref).mpr (represents.alive ref present)
  · rw [← not_exists, somewhere, not_exists]
    exact represents.destroyed ref

private theorem exchange_parents (parents : state.Parents trees) {target source : SetId} :
    ((state.replace source (state.heap, .construct)).replace target (state.heap,
      state.sets source)).Parents
      (Function.update (Function.update trees source .nil) target (trees source)) := by
  intro set
  simp only [SortedSets.replace, Function.update_apply]
  split
  next => exact parents source
  next =>
    split
    next => trivial
    next => exact parents set

theorem values_update (trees : SetId → BinaryTree (NodeRef × α)) (set : SetId)
    (built : BinaryTree (NodeRef × α)) :
    (fun other => values (Function.update trees set built other)) =
      Function.update (fun other => values (trees other)) set (values built) := by
  funext other
  simp only [Function.update_apply, apply_ite values]

/-- Every operation succeeds, and changes the lists as it should. Parents stay right if and
only if it is not the root that goes and leaves one child behind. -/
theorem execute (represents : Represents order state trees) (strict : order.Strict)
    (event : SetEvent α) :
    ∃ after trees', state.execute order event = .ok after ∧ Represents order after trees' ∧
      Changes order (fun set => values (trees set)) (fun set => values (trees' set)) event ∧
      (state.Parents trees → (after.Parents trees' ↔ state.removesTop order event = false)) := by
  cases event with
  | insert set value =>
    obtain ⟨result, built, below, same, above, ran, splits, becomes⟩ :=
      insertImpl_spec (represents.holds set) strict value
    refine ⟨_, _, ?_, represents.replace becomes, ⟨below, same, above, splits, ?_⟩,
      fun parents => (represents.replace_parents becomes parents).trans (iff_of_true trivial rfl)⟩
    · simp only [SortedSets.execute, ran, Functor.map, Except.map]
    · rw [values_update, becomes.values]
  | remove set value =>
    obtain ⟨result, built, below, same, above, ran, splits, becomes⟩ :=
      remove_spec (represents.holds set) strict value
    refine ⟨_, _, ?_, represents.replace becomes, ⟨below, same, above, splits, ?_⟩,
      fun parents => represents.replace_parents becomes parents⟩
    · simp only [SortedSets.execute, ran, Functor.map, Except.map]
    · rw [values_update, becomes.values]
  | clear set =>
    obtain ⟨result, ran, becomes⟩ := clear_spec (represents.holds set)
    refine ⟨_, _, ?_, represents.replace becomes, ?_, fun parents =>
      (represents.replace_parents becomes parents).trans (iff_of_true trivial rfl)⟩
    · simp only [SortedSets.execute, ran, Functor.map, Except.map]
    · exact values_update trees set .nil
  | move target source =>
    obtain ⟨result, ran, becomes⟩ := clear_spec (represents.holds target)
    have cleared := represents.replace becomes
    have empty : Function.update trees target .nil target = .nil := Function.update_self ..
    refine ⟨_, _, ?_, cleared.exchange source empty, ?_, fun parents =>
      iff_of_true (exchange_parents ((represents.replace_parents becomes parents).mpr trivial)) rfl⟩
    · simp only [SortedSets.execute, moveAssign, ran, bind, Except.bind]
      rfl
    · have moved := congrFun (values_update trees target .nil) source
      simp only [Changes, values_update, moved, values_nil]

end Represents
end SortedSets
end PicoOs.Std
