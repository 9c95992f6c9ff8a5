import PicoOs.Proofs.SortedSets

/-! The iterator is the only reader of parents. As long as they are right it follows the
inorder of the tree, and they stay right until a root with one child is removed: the
child becomes the root and still refers to a node that is gone. -/

namespace PicoOs.Std
open Library NodeHeap
variable {α : Type}

namespace SortedSet
variable {order : Comparison α} {heap : NodeHeap α} {set : SortedSet}
  {path : List (Frame (NodeRef × α))}
  {tree left right : BinaryTree (NodeRef × α)} {label : NodeRef × α} {fuel : Nat}

/-- Where the iterator goes when `rest` is still ahead of it. -/
def Follows (tree : BinaryTree (NodeRef × α)) (rest : List (NodeRef × α)) : Option NodeRef → Prop
  | none => rest = []
  | some next =>
      ∃ path label left right, plug path (.node label left right) = tree ∧ next = label.1 ∧
      rest = label :: (Library.inorder right ++ after path)

theorem node_present (linked : Linked heap.links (plug path (.node label left right)))
    (parented : Parented heap.parents none (plug path (.node label left right))) :
    ∃ contents, heap.nodes label.1 = some contents ∧ contents.value = label.2 ∧
    contents.left = rootOf left ∧
      contents.right = rootOf right ∧ contents.parent = holder path := by
  obtain ⟨contents, here, same⟩ := present (linked_plug.mp linked).2.1
  have parent : heap.parents label.1 = some (holder path) := (parented_plug.mp parented).2.1
  rw [parents, here, Option.map_some, Option.some.injEq] at parent
  exact ⟨contents, here, congrArg Links.value same, congrArg Links.left same,
    congrArg Links.right same, parent⟩

private theorem climb_spec (linked : Linked heap.links (plug path (.node label left right)))
    (parented : Parented heap.parents none (plug path (.node label left right)))
    (unique : (refs (plug path (.node label left right))).Nodup) (enough : path.length < fuel) :
    ∃ next, climb heap fuel label.1 = .ok next ∧
    Follows (plug path (.node label left right)) (after path) next := by
  induction path generalizing label left right fuel with
  | nil =>
    obtain ⟨contents, here, _, _, _, parent⟩ := node_present linked parented
    cases fuel with
    | zero => cases enough
    | succ fuel =>
      refine ⟨none, ?_, rfl⟩
      simp only [climb, load_present here, bind, Except.bind, parent, holder]
  | cons frame rest ih =>
    obtain ⟨contents, here, _, _, _, parent⟩ := node_present linked parented
    have parentRef : contents.parent = some frame.label.1 := parent
    cases fuel with
    | zero => cases enough
    | succ fuel =>
      cases frame with
      | left top sibling =>
        have linkedAbove : Linked heap.links (plug rest (.node top (.node label left right) sibling)) := linked
        obtain ⟨above, aboveHere, _, aboveLeft, _, _⟩ := node_present linkedAbove parented
        refine ⟨some top.1, ?_, rest, top, .node label left right, sibling, rfl, rfl, rfl⟩
        simp only [climb, load_present here, bind, Except.bind, parentRef, Frame.label,
          load_present aboveHere, aboveLeft,
          rootOf_node, ne_eq, not_true_eq_false, if_false]
      | right top sibling =>
        have linkedAbove : Linked heap.links (plug rest (.node top sibling (.node label left right))) := linked
        have uniqueAbove : (refs (plug rest (.node top sibling (.node label left right)))).Nodup :=
          unique
        obtain ⟨above, aboveHere, _, aboveLeft, _, _⟩ := node_present linkedAbove parented
        obtain ⟨next, climbed, follows⟩ :=
          ih linkedAbove parented uniqueAbove (Nat.lt_of_succ_lt_succ enough)
        have notLeft : rootOf sibling ≠ some label.1 := by
          intro root
          obtain ⟨_, _, _, _, apart⟩ := nodup_node (nodup_plug.mp uniqueAbove).2.1
          exact apart label.1 (mem_refs_of_rootOf root) (by simp [refs_node])
        refine ⟨next, ?_, follows⟩
        simp only [climb, load_present here, bind, Except.bind, parentRef, Frame.label,
          load_present aboveHere, aboveLeft,
          ne_eq, notLeft, not_false_eq_true, if_true, climbed]

private theorem length_plug (path : List (Frame (NodeRef × α))) (tree : BinaryTree (NodeRef × α)) :
    path.length + (Library.inorder tree).length ≤ (Library.inorder (plug path tree)).length := by
  induction path generalizing tree with
  | nil => simp [plug]
  | cons frame rest ih =>
    have longer := ih (frame.fill tree)
    have grown : (Library.inorder tree).length + 1 ≤ (Library.inorder (frame.fill tree)).length := by
      cases frame <;> simp [Frame.fill, Library.inorder]
    simp only [plug, List.length_cons]
    omega

/-- One step of the iterator. -/
theorem advance_spec (holds : Holds order heap set (plug path (.node label left right)))
    (parented : Parented heap.parents none (plug path (.node label left right))) :
    ∃ next, advance heap (some label.1) = .ok next ∧
      Follows (plug path (.node label left right)) (Library.inorder right ++ after path) next := by
  obtain ⟨contents, here, _, _, rightRef, _⟩ := node_present holds.linked parented
  have long := length_plug path (.node label left right)
  have enough := holds.enough
  simp only [Library.inorder, List.length_append, List.length_cons] at long
  cases right with
  | nil =>
    obtain ⟨next, climbed, follows⟩ :=
      climb_spec holds.linked parented holds.unique (by omega : path.length < heap.next)
    refine ⟨next, ?_, follows⟩
    simp only [advance, load_present here, bind, Except.bind, rightRef, rootOf_nil, ne_eq,
      not_true_eq_false, if_false, climbed]
  | node inner innerLeft innerRight =>
    have small : (Library.inorder (.node inner innerLeft innerRight)).length ≤ heap.next := by
      simp only [Library.inorder, List.length_append, List.length_cons] at long ⊢
      omega
    obtain ⟨frames, least, beside, shape, first, reached⟩ :=
      minImpl_spec (linked_plug.mp holds.linked).2.2.2 small
    have walked : minImpl heap heap.next (some inner.1) none = .ok _ := reached []
    refine ⟨some least.1, ?_, frames ++ .right label left :: path, least, .nil, beside, ?_, rfl, ?_⟩
    · simp only [advance, load_present here, bind, Except.bind, rightRef, rootOf_node, ne_eq,
        reduceCtorEq, not_false_eq_true,
        if_true, walked]
    · rw [plug_append, shape]
      rfl
    · rw [← shape, inorder_plug, first, after_append]
      simp [Library.inorder, after, Frame.after]

private theorem visit_spec {rest : List (NodeRef × α)} {next : Option NodeRef}
    (holds : Holds order heap set tree)
    (parented : Parented heap.parents none tree) (follows : Follows tree rest next)
    (enough : rest.length ≤ fuel) :
    visit heap fuel next = .ok (rest.map Prod.snd) := by
  induction rest generalizing fuel next with
  | nil =>
    cases next with
    | none => cases fuel <;> rfl
    | some next =>
      obtain ⟨_, _, _, _, _, _, ahead⟩ := follows
      cases ahead
  | cons label rest ih =>
    cases next with
    | none => cases follows
    | some next =>
      obtain ⟨path, label, left, right, rfl, rfl, ⟨⟩⟩ := follows
      obtain ⟨contents, here, value, _, _, _⟩ := node_present holds.linked parented
      obtain ⟨next, advanced, follows⟩ := advance_spec holds parented
      cases fuel with
      | zero => cases enough
      | succ fuel =>
        have rest := ih follows (Nat.le_of_succ_le_succ enough)
        simp only [visit, load_present here, bind, Except.bind, advanced, rest,
          value, List.map_cons]

/-- The iterator starts with everything ahead. -/
theorem inorder_spec (holds : Holds order heap set tree) :
    ∃ next, set.inorder heap = .ok next ∧ Follows tree (Library.inorder tree) next := by
  cases tree with
  | nil =>
    refine ⟨none, ?_, rfl⟩
    simp only [inorder, holds.root, rootOf_nil]
    cases heap.next <;> rfl
  | node label left right =>
    obtain ⟨frames, least, beside, shape, first, reached⟩ := minImpl_spec holds.linked holds.enough
    have walked : minImpl heap heap.next (some label.1) none = .ok _ := reached []
    refine ⟨some least.1, ?_, frames, least, .nil, beside, shape, rfl, ?_⟩
    · simp only [inorder, holds.root, rootOf_node, walked, bind, Except.bind]
    · rw [← shape, inorder_plug, first]
      rfl

private theorem iterate_spec (holds : Holds order heap set tree)
    (parented : Parented heap.parents none tree) :
    set.iterate heap = .ok (values tree) := by
  obtain ⟨next, begins, follows⟩ := inorder_spec holds
  simp only [iterate, begins, bind, Except.bind]
  exact visit_spec holds parented follows holds.enough

/-- Every node refers to its parent and the root to none, and a loop over the set sees its
values in ascending order and ends. -/
def Traversable (order : Comparison α) (heap : NodeHeap α) (set : SortedSet) : Prop :=
  ∃ tree, set.root = rootOf tree ∧ Linked heap.links tree ∧ Parented heap.parents none tree ∧
    set.iterate heap = .ok (values tree) ∧ Sorted order (values tree)

end SortedSet

namespace SortedSets
open SortedSet
variable {order : Comparison α} {state : SortedSets α} {trees : SetId → BinaryTree (NodeRef × α)}
  {history : List (SortedSets α × SetEvent α)}

private theorem Represents.traversals (represents : Represents order state trees) :
    (∀ set, Traversable order state.heap (state.sets set)) ↔ state.Parents trees := by
  constructor
  · intro traversable set
    obtain ⟨tree, root, linked, parented, _⟩ := traversable set
    have holds := represents.holds set
    rwa [linked.unique holds.linked (root.symm.trans holds.root)] at parented
  · intro parents set
    have holds := represents.holds set
    exact ⟨trees set, holds.root, holds.linked, parents set,
      iterate_spec holds (parents set), holds.sorted⟩

/-- In a run, all sets can be traversed in every state if and only if no step takes out
the root of a set and leaves its only child. -/
theorem traversable_iff (strict : order.Strict) (run : (machine order).Run .initial history state) :
    (∀ passed ∈ history.map Prod.fst ++ [state], ∀ set,
      Traversable order passed.heap (passed.sets set)) ↔
      ∀ entry ∈ history, entry.1.removesTop order entry.2 = false := by
  refine run.induct (fun history state =>
    (∀ passed ∈ history.map Prod.fst ++ [state], ∀ set,
      Traversable order passed.heap (passed.sets set)) ↔
      ∀ entry ∈ history, entry.1.removesTop order entry.2 = false) ?_ ?_
  · refine iff_of_true (fun passed member => ?_) nofun
    obtain rfl := List.mem_singleton.mp member
    exact Represents.initial.traversals.mpr fun _ => trivial
  · intro history state event next earlier ih _ executed
    obtain ⟨trees, represents, _⟩ := represented strict earlier
    obtain ⟨after, trees', same, represented, _, parents⟩ := represents.execute strict event
    cases same.symm.trans executed
    have last : (∀ set, Traversable order state.heap (state.sets set)) →
        ((∀ set, Traversable order next.heap (next.sets set)) ↔
          state.removesTop order event = false) := by
      rw [represents.traversals, represented.traversals]
      exact parents
    simp only [List.map_append, List.map_cons, List.map_nil, List.mem_append, List.mem_singleton,
      or_imp, forall_and,
      forall_eq] at ih ⊢
    rw [← ih]
    constructor
    · rintro ⟨⟨before, here⟩, there⟩
      exact ⟨⟨before, here⟩, (last here).mp there⟩
    · rintro ⟨⟨before, here⟩, calm⟩
      exact ⟨⟨before, here⟩, (last here).mpr calm⟩

theorem traversable_iff_three :
    ∃ (state : SortedSets Nat)
    (history : List (SortedSets Nat × SetEvent Nat)), (machine .linear).Run .initial history state ∧
      history.map Prod.snd = [.insert 0 2, .insert 0 1, .insert 0 3, .remove 0 2] ∧
      ((∀ passed ∈ history.map Prod.fst ++ [state], ∀ set,
        Traversable .linear passed.heap (passed.sets set)) ↔
        ∀ entry ∈ history, entry.1.removesTop .linear entry.2 = false) := by
  have finished : ((machine (.linear : Comparison Nat)).after .initial
      [.insert 0 2, .insert 0 1, .insert 0 3, .remove 0 2]).isSome := by decide
  obtain ⟨state, played⟩ := Option.isSome_iff_exists.mp finished
  obtain ⟨history, run, events⟩ := Machine.run_after played
  exact ⟨state, history, run, events, traversable_iff Comparison.linear_strict run⟩

/-- The set holds 1 and 2, and 1 is removed. -/
theorem only_child_left :
    ∃ state, (machine (.linear : Comparison Nat)).after .initial [.insert 0 1, .insert 0 2,
      .remove 0 1] = some state ∧
      (state.sets 0).root = some 1 ∧ state.heap.parents 1 = some (some 0) ∧
      state.heap.destroyed = [0] ∧
      (state.sets 0).iterate state.heap = .error .dangling ∧
      ¬Traversable .linear state.heap (state.sets 0) := by
  refine ⟨_, rfl, rfl, rfl, rfl, rfl, ?_⟩
  rintro ⟨tree, _, _, _, iterated, _⟩
  cases iterated

end SortedSets
end PicoOs.Std
