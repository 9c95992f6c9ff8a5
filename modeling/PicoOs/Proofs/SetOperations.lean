import PicoOs.Std.SortedSet

/-! What the operations of a sorted set do to its tree, and to the nodes of every other
set: nothing. Parents are followed along, but only the iterator reads them. -/

namespace PicoOs.Std
open Library
variable {α : Type}

namespace NodeHeap
variable {heap after : NodeHeap α} {ref other : NodeRef} {contents : Node α}

def links (heap : NodeHeap α) (ref : NodeRef) : Option (Links NodeRef α) :=
  (heap.nodes ref).map Node.toLinks

def parents (heap : NodeHeap α) (ref : NodeRef) : Option (Option NodeRef) :=
  (heap.nodes ref).map Node.parent

theorem present {links : Links NodeRef α} (linked : heap.links ref = some links) :
    ∃ contents, heap.nodes ref = some contents ∧ contents.toLinks = links :=
  Option.map_eq_some_iff.mp linked

theorem load_present (here : heap.nodes ref = some contents) : heap.load ref = .ok contents := by
  simp only [load, here]

theorem modify_present (here : heap.nodes ref = some contents) (change : Node α → Node α) :
    heap.modify ref change = .ok (heap.put ref (change contents)) := by
  rw [modify, load_present here]
  rfl

@[simp] theorem put_same (heap : NodeHeap α) (ref : NodeRef) (contents : Node α) :
    (heap.put ref contents).nodes ref = some contents := Function.update_self ..

theorem put_other (heap : NodeHeap α) (contents : Node α) (different : other ≠ ref) :
    (heap.put ref contents).nodes other = heap.nodes other := Function.update_of_ne different ..

theorem links_congr (same : after.nodes ref = heap.nodes ref) :
    after.links ref = heap.links ref := by
  rw [links, links, same]

theorem parents_congr (same : after.nodes ref = heap.nodes ref) :
    after.parents ref = heap.parents ref := by
  rw [parents, parents, same]

theorem put_links (heap : NodeHeap α) (ref : NodeRef) (contents : Node α) :
    (heap.put ref contents).links = Function.update heap.links ref (some contents.toLinks) := by
  funext other
  by_cases same : other = ref
  · subst same
    simp [links]
  · rw [links_congr (put_other heap contents same), Function.update_of_ne same]

theorem put_parents (heap : NodeHeap α) (ref : NodeRef) (contents : Node α) :
    (heap.put ref contents).parents = Function.update heap.parents ref (some contents.parent) := by
  funext other
  by_cases same : other = ref
  · subst same
    simp [parents]
  · rw [parents_congr (put_other heap contents same), Function.update_of_ne same]

theorem linked_alive {tree : BinaryTree (NodeRef × α)} (linked : Linked heap.links tree) :
    ∀ ref ∈ refs tree, heap.nodes ref ≠ none := by
  induction tree with
  | nil => simp
  | node label left right ihLeft ihRight =>
    intro ref member
    rw [refs_node, List.mem_append, List.mem_cons] at member
    obtain inLeft | rfl | inRight := member
    · exact ihLeft linked.2.1 ref inLeft
    · obtain ⟨contents, here, _⟩ := present linked.1
      rw [here]
      exact nofun
    · exact ihRight linked.2.2 ref inRight

structure Reparented (heap after : NodeHeap α) (node parent : Option NodeRef) : Prop where
  next : after.next = heap.next
  destroyed : after.destroyed = heap.destroyed
  links : after.links = heap.links
  parents : ∀ ref, after.parents ref = if node = some ref then some parent else heap.parents ref
  nodes : ∀ ref, node ≠ some ref → after.nodes ref = heap.nodes ref

private theorem setParent_spec {node parent : Option NodeRef}
    (present : ∀ ref, node = some ref → heap.nodes ref ≠ none) :
    ∃ after, heap.setParent node parent = .ok after ∧ heap.Reparented after node parent := by
  cases node with
  | none => exact ⟨heap, rfl, rfl, rfl, rfl, fun ref => by simp, fun _ _ => rfl⟩
  | some node =>
    obtain ⟨contents, here⟩ := Option.ne_none_iff_exists'.mp (present node rfl)
    have kept : some contents.toLinks = heap.links node := by rw [links, here, Option.map_some]
    refine ⟨_, modify_present here _, rfl, rfl, ?_, fun ref => ?_, fun ref other => ?_⟩
    · rw [put_links, kept, Function.update_eq_self]
    · simp only [put_parents, Function.update_apply, Option.some.injEq, eq_comm]
    · apply put_other
      rintro rfl
      exact other rfl

structure Deleted (heap after : NodeHeap α) (list : List NodeRef) : Prop where
  next : after.next = heap.next
  nodes : ∀ ref, after.nodes ref = if ref ∈ list then none else heap.nodes ref
  destroyed : ∃ gone, after.destroyed = gone ++ heap.destroyed ∧ gone.Perm list

theorem delete_spec {tree : BinaryTree (NodeRef × α)} {fuel : Nat} (linked : Linked heap.links tree)
    (unique : (refs tree).Nodup) (enough : (inorder tree).length ≤ fuel) :
    ∃ after, heap.delete fuel (rootOf tree) = .ok after ∧ heap.Deleted after (refs tree) := by
  induction tree generalizing heap fuel with
  | nil =>
    refine ⟨heap, by cases fuel <;> rfl, rfl, fun ref => by simp [refs, inorder], [], rfl, .refl _⟩
  | node label left right ihLeft ihRight =>
    obtain ⟨contents, here, same⟩ := present linked.1
    obtain ⟨uniqueLeft, uniqueRight, outLeft, outRight, apart⟩ := nodup_node unique
    cases fuel with
    | zero => simp [inorder] at enough
    | succ fuel =>
      simp only [inorder, List.length_append, List.length_cons] at enough
      obtain ⟨first, ranFirst, deletedFirst⟩ := ihLeft linked.2.1 uniqueLeft (by omega : _ ≤ fuel)
      have kept : first.nodes label.1 = some contents := by
        rw [deletedFirst.nodes, if_neg outLeft, here]
      have linkedRight : Linked first.links right := linked.2.2.congr fun ref member => by
        have out : ref ∉ refs left := fun inLeft => apart ref inLeft member
        exact links_congr (by rw [deletedFirst.nodes, if_neg out])
      obtain ⟨last, ranLast, deletedLast⟩ := ihRight linkedRight uniqueRight (by omega : _ ≤ fuel)
      obtain ⟨goneFirst, logFirst, permFirst⟩ := deletedFirst.destroyed
      obtain ⟨goneLast, logLast, permLast⟩ := deletedLast.destroyed
      have leftRef : contents.left = rootOf left := congrArg Links.left same
      have rightRef : contents.right = rootOf right := congrArg Links.right same
      refine ⟨{ last with nodes := Function.update last.nodes label.1 none, destroyed := label.1 :: last.destroyed },
        ?_, ?_, ?_, label.1 :: (goneLast ++ goneFirst), ?_, ?_⟩
      · simp only [rootOf_node, delete, load_present here, leftRef, bind, Except.bind, ranFirst,
          load_present kept, rightRef,
          ranLast]
      · exact deletedLast.next.trans deletedFirst.next
      · intro ref
        simp only [refs_node, List.mem_append, List.mem_cons, Function.update_apply,
          deletedLast.nodes, deletedFirst.nodes]
        by_cases isLabel : ref = label.1
        · simp only [isLabel, true_or, or_true, if_true]
        · by_cases inRight : ref ∈ refs right
          · simp only [isLabel, inRight, or_true, if_true, if_false]
          · simp only [isLabel, inRight, or_false, if_false]
      · simp [logLast, logFirst]
      · have parts : (goneLast ++ goneFirst).Perm (refs left ++ refs right) :=
          (permLast.append permFirst).trans List.perm_append_comm
        rw [refs_node]
        exact (parts.cons label.1).trans List.perm_middle.symm

end NodeHeap

theorem Comparison.linear_strict [LinearOrder α] : (Comparison.linear : Comparison α).Strict where
  converse _ _ := rfl
  irrefl value := by simp [linear]
  trans := by
    intro first second third below above
    simp only [linear, decide_eq_true_eq] at below above ⊢
    exact lt_trans below above
  total := by
    intro first third second below
    simp only [linear, decide_eq_true_eq] at below ⊢
    obtain lower | higher := lt_or_ge first second
    · exact .inl lower
    · exact .inr (lt_of_le_of_lt higher below)

namespace Comparison.Strict
variable {order : Comparison α} {first second third : α}

theorem asymm (strict : order.Strict) (less : order.less first second) :
    order.less second first = false := by
  rw [Bool.eq_false_iff]
  intro back
  have loop := strict.trans less back
  rw [strict.irrefl] at loop
  cases loop

theorem equivalent_iff (strict : order.Strict) :
    order.equivalent first second = true ↔
    order.less first second = false ∧ order.less second first = false := by
  simp [equivalent, strict.converse]

theorem less_of_less_equivalent (strict : order.Strict) (less : order.less first second)
    (same : order.equivalent third second) : order.less first third := by
  obtain below | below := strict.total third less
  · exact below
  · rw [(strict.equivalent_iff.mp same).1] at below
    cases below

theorem less_of_equivalent_less (strict : order.Strict) (same : order.equivalent first second)
    (less : order.less second third) : order.less first third := by
  obtain below | below := strict.total first less
  · rw [(strict.equivalent_iff.mp same).2] at below
    cases below
  · exact below

theorem equivalent_refl (strict : order.Strict) (value : α) : order.equivalent value value :=
  strict.equivalent_iff.mpr ⟨strict.irrefl value, strict.irrefl value⟩

theorem equivalent_symm (strict : order.Strict) (same : order.equivalent first second) :
    order.equivalent second first :=
  strict.equivalent_iff.mpr (strict.equivalent_iff.mp same).symm

theorem equivalent_trans (strict : order.Strict) (same : order.equivalent first second)
    (next : order.equivalent second third) : order.equivalent first third := by
  apply strict.equivalent_iff.mpr
  constructor
  · rw [Bool.eq_false_iff]
    intro less
    have lower := strict.less_of_equivalent_less (strict.equivalent_symm same) less
    rw [(strict.equivalent_iff.mp next).1] at lower
    cases lower
  · rw [Bool.eq_false_iff]
    intro less
    have lower := strict.less_of_less_equivalent less (strict.equivalent_symm same)
    rw [(strict.equivalent_iff.mp next).2] at lower
    cases lower

end Comparison.Strict

/-- A path has the place of the key in a search tree: what comes before is smaller, what
comes after is larger, and the node in its hole, if there is one, is equivalent. -/
structure Located (order : Comparison α) (key : α) (path : List (Frame (NodeRef × α)))
    (tree : BinaryTree (NodeRef × α)) : Prop where
  below : ∀ label ∈ before path, order.less label.2 key
  above : ∀ label ∈ after path, order.less key label.2
  here : ∀ label left right, tree = .node label left right → order.equivalent key label.2

def Sorted (order : Comparison α) (list : List α) : Prop :=
  list.Pairwise fun first second => order.less first second

namespace SortedSet
open NodeHeap
variable {order : Comparison α} {heap : NodeHeap α} {path : List (Frame (NodeRef × α))}
  {tree left right : BinaryTree (NodeRef × α)} {label : NodeRef × α} {fuel : Nat} {key : α}

theorem searchImpl_spec (strict : order.Strict) (linked : Linked heap.links tree)
    (sorted : Sorted order (values tree))
    (enough : (Library.inorder tree).length ≤ fuel)
    (below : ∀ label ∈ before path, order.less label.2 key)
    (above : ∀ label ∈ after path, order.less key label.2) :
    ∃ found rest, plug found rest = plug path tree ∧ Located order key found rest ∧
      searchImpl order heap key fuel (holder path) (rootOf tree) =
        .ok (rootOf rest, holder found) := by
  induction tree generalizing path fuel with
  | nil => exact ⟨path, .nil, rfl, ⟨below, above, nofun⟩, by cases fuel <;> rfl⟩
  | node label left right ihLeft ihRight =>
    obtain ⟨contents, here, same⟩ := present linked.1
    have value : contents.value = label.2 := congrArg Links.value same
    have leftRef : contents.left = rootOf left := congrArg Links.left same
    have rightRef : contents.right = rootOf right := congrArg Links.right same
    rw [Sorted, values_node, List.pairwise_append, List.pairwise_cons] at sorted
    obtain ⟨sortedLeft, ⟨aboveLabel, sortedRight⟩, across⟩ := sorted
    cases fuel with
    | zero => simp [Library.inorder] at enough
    | succ fuel =>
      simp only [Library.inorder, List.length_append, List.length_cons] at enough
      simp only [rootOf_node, searchImpl, load_present here, bind, Except.bind, value,
        leftRef, rightRef]
      by_cases smaller : order.less key label.2
      · rw [if_pos smaller]
        have belowLeft : ∀ other ∈ before (.left label right :: path), order.less other.2 key := by
          simpa [before, Frame.before] using below
        refine ihLeft linked.2.1 sortedLeft (by omega) belowLeft ?_
        · intro other member
          simp only [after, Frame.after, List.cons_append, List.mem_cons, List.mem_append] at member
          obtain rfl | inRight | outside := member
          · exact smaller
          · exact strict.trans smaller (aboveLabel _ (List.mem_map_of_mem inRight))
          · exact above other outside
      · rw [if_neg smaller]
        by_cases larger : order.greater key label.2
        · rw [if_pos larger]
          rw [strict.converse] at larger
          have aboveRight : ∀ other ∈ after (.right label left :: path),
            order.less key other.2 := by
            simpa [after, Frame.after] using above
          refine ihRight linked.2.2 sortedRight (by omega) ?_ aboveRight
          · intro other member
            simp only [before, Frame.before, List.mem_append, List.mem_singleton] at member
            obtain outside | inLeft | rfl := member
            · exact below other outside
            · exact strict.trans (across _ (List.mem_map_of_mem inLeft) _ (by simp)) larger
            · exact larger
        · rw [if_neg larger]
          refine ⟨path, .node label left right, rfl, ⟨below, above, ?_⟩, rfl⟩
          rintro _ _ _ ⟨⟩
          simp [Comparison.equivalent, smaller, larger]

/-- The leftmost node is at the end of a path of left steps only. -/
theorem minImpl_spec (linked : Linked heap.links (.node label left right))
    (enough : (Library.inorder (.node label left right)).length ≤ fuel) :
    ∃ frames least beside, plug frames (.node least .nil beside) = .node label left right ∧
    before frames = [] ∧
      ∀ path : List (Frame (NodeRef × α)),
        minImpl heap fuel (some label.1) (holder path) =
          .ok (some least.1, holder (frames ++ path)) := by
  induction left generalizing label right fuel with
  | nil =>
    obtain ⟨contents, here, same⟩ := present linked.1
    have leftRef : contents.left = none := congrArg Links.left same
    refine ⟨[], label, right, rfl, rfl, fun path => ?_⟩
    cases fuel with
    | zero => simp [Library.inorder] at enough
    | succ fuel =>
        simp only [minImpl, load_present here, bind, Except.bind, leftRef, if_true, List.nil_append]
  | node inner innerLeft innerRight ih _ =>
    obtain ⟨contents, here, same⟩ := present linked.1
    have leftRef : contents.left = some inner.1 := congrArg Links.left same
    cases fuel with
    | zero => simp [Library.inorder] at enough
    | succ fuel =>
      have shorter : (Library.inorder (.node inner innerLeft innerRight)).length ≤ fuel := by
        simp only [Library.inorder, List.length_append, List.length_cons] at enough ⊢
        omega
      obtain ⟨frames, least, beside, same, first, found⟩ := ih linked.2.1 shorter
      refine ⟨frames ++ [.left label right], least, beside, ?_, ?_, fun path => ?_⟩
      · rw [plug_append, same]
        rfl
      · simp [before_append, first, before, Frame.before]
      · have reached := found (.left label right :: path)
        simp only [minImpl, load_present here, bind, Except.bind, leftRef, reduceCtorEq, if_false]
        rw [List.append_assoc]
        exact reached

/-- The reference in the hole of a path has been replaced, and the node it referred to is
no longer used by the tree. -/
structure Relinked (heap after : NodeHeap α) (path : List (Frame (NodeRef × α))) (old : NodeRef)
    (filled : Option NodeRef) : Prop where
  next : after.next = heap.next
  destroyed : after.destroyed = heap.destroyed
  linked : LinkedPath after.links path filled
  links : ∀ ref, some ref ≠ holder path → after.links ref = heap.links ref
  adopted : ∀ ref, filled = some ref → holder path ≠ none → after.parents ref = some (holder path)
  parents : ∀ ref, ref ≠ old → (filled = some ref → holder path = none) →
    after.parents ref = heap.parents ref
  nodes : ∀ ref, some ref ≠ holder path → ref ≠ old → filled ≠ some ref →
    after.nodes ref = heap.nodes ref

private theorem replaced {frame : Frame (NodeRef × α)} {rest : List (Frame (NodeRef × α))}
    {old : NodeRef} {filled : Option NodeRef}
    {contents : Node α} (change : Node α → Node α)
    (linked : LinkedPath heap.links (frame :: rest) (some old))
    (unique : (pathRefs (frame :: rest)).Nodup) (here : heap.nodes frame.label.1 = some contents)
    (links : (change contents).toLinks = frame.links filled)
    (parent : (change contents).parent = contents.parent)
    (present : ∀ ref, some old = some ref ∨ filled = some ref → heap.nodes ref ≠ none ∧
      ref ≠ frame.label.1)
    (different : filled ≠ some old) :
    ∃ after, (do
        let heap ← heap.setParent (some old) none
        let heap ← heap.modify frame.label.1 change
        heap.setParent filled (some frame.label.1)) = .ok after ∧
        Relinked heap after (frame :: rest) old filled := by
  have oldHere : ∀ ref, some old = some ref → heap.nodes ref ≠ none :=
    fun ref same => (present ref (.inl same)).1
  obtain ⟨first, ranFirst, orphaned⟩ := @setParent_spec _ _ _ none oldHere
  have kept : first.nodes frame.label.1 = some contents :=
    (orphaned.nodes _ fun same => (present _ (.inl same)).2 rfl).trans here
  have inside : ∀ ref, filled = some ref → (first.put frame.label.1 (change contents)).nodes
    ref ≠ none := by
    intro ref same
    obtain ⟨exists_, other⟩ := present ref (.inr same)
    rw [put_other first _ other, orphaned.nodes ref]
    · exact exists_
    · rintro ⟨⟩
      exact different same
  obtain ⟨last, ranLast, adopted⟩ := @setParent_spec _ _ _ (some frame.label.1) inside
  have others : ∀ ref, ref ≠ frame.label.1 → last.links ref = heap.links ref := fun ref other => by
    rw [adopted.links, put_links, Function.update_of_ne other, orphaned.links]
  refine ⟨last, ?_, adopted.next.trans orphaned.next, adopted.destroyed.trans orphaned.destroyed,
    ?_, ?_, ?_, ?_, ?_⟩
  · simp only [ranFirst, bind, Except.bind, modify_present kept, ranLast]
  · refine linked.refill unique ?_ fun ref _ other => others ref other
    rw [adopted.links, put_links, Function.update_self, links]
  · exact fun ref other => others ref fun same => other (congrArg some same)
  · intro ref same _
    rw [adopted.parents, if_pos same]
    rfl
  · intro ref notOld filledRoot
    have notFilled : filled ≠ some ref := fun same => nomatch filledRoot same
    rw [adopted.parents, if_neg notFilled, put_parents, Function.update_apply]
    split
    next isLabel => rw [isLabel, parents, here, parent, Option.map_some]
    next => rw [orphaned.parents, if_neg fun same => notOld (Option.some.inj same).symm]
  · intro ref notHolder notOld notFilled
    have other : ref ≠ frame.label.1 := fun same => notHolder (congrArg some same)
    rw [adopted.nodes ref notFilled, put_other _ _ other, orphaned.nodes]
    rintro ⟨⟩
    exact notOld rfl

private theorem relink_spec {set : SortedSet} {old : NodeRef} {rest : BinaryTree (NodeRef × α)}
    (linked : LinkedPath heap.links path (some old)) (root : set.root = rootOf (plug path tree))
    (unique : (pathRefs path).Nodup) (different : rootOf rest ≠ some old)
    (present : ∀ ref, some old = some ref ∨ rootOf rest = some ref → heap.nodes ref ≠ none ∧
      ref ∉ pathRefs path) :
    ∃ after, relink heap set old (holder path) (rootOf rest) =
      .ok (after, { set with root := rootOf (plug path rest) }) ∧
      Relinked heap after path old (rootOf rest) := by
  cases path with
  | nil =>
    refine ⟨heap, rfl, rfl, rfl, trivial, fun _ _ => rfl, fun _ _ top => ?_, fun _ _ _ => rfl,
      fun _ _ _ _ => rfl⟩
    exact absurd rfl top
  | cons frame outer =>
    obtain ⟨contents, here, same⟩ := NodeHeap.present linked.1
    have top : rootOf (plug (frame :: outer) rest) = set.root := by
      rw [root]
      apply rootOf_plug
      exact nofun
    have kept : ({ set with root := rootOf (plug (frame :: outer) rest) } : SortedSet) = set := by
      rw [top]
    have inPath : frame.label.1 ∈ pathRefs (frame :: outer) :=
      (pathRefs_cons frame outer).mpr (.inl rfl)
    have apart : ∀ ref, some old = some ref ∨ rootOf rest = some ref →
      heap.nodes ref ≠ none ∧ ref ≠ frame.label.1 := by
      intro ref used
      refine ⟨(present ref used).1, ?_⟩
      rintro rfl
      exact (present _ used).2 inPath
    rw [kept]
    cases frame with
    | left label sibling =>
      have leftRef : contents.left = some old := congrArg Links.left same
      have rightRef : contents.right = rootOf sibling := congrArg Links.right same
      have value : contents.value = label.2 := congrArg Links.value same
      have links : ({ contents with left := rootOf rest } : Node α).toLinks =
        (Frame.left label sibling).links (rootOf rest) := by
        simp [Frame.links, rightRef, value]
      obtain ⟨after, ran, relinked⟩ :=
        replaced (fun contents => { contents with left := rootOf rest }) linked unique here links
        rfl apart different
      refine ⟨after, ?_, relinked⟩
      simp only [Frame.label] at here ran
      simp only [relink, holder, Frame.label, replaceChild, load_present here, bind, Except.bind,
        leftRef, if_true] at ran ⊢
      rw [ran]
    | right label sibling =>
      have leftRef : contents.left = rootOf sibling := congrArg Links.left same
      have rightRef : contents.right = some old := congrArg Links.right same
      have value : contents.value = label.2 := congrArg Links.value same
      have notLeft : rootOf sibling ≠ some old := by
        intro left
        apply (present old (.inl rfl)).2
        exact (pathRefs_cons _ outer).mpr (.inr (.inl (mem_refs_of_rootOf left)))
      have links : ({ contents with right := rootOf rest } : Node α).toLinks =
        (Frame.right label sibling).links (rootOf rest) := by
        simp [Frame.links, leftRef, value]
      obtain ⟨after, ran, relinked⟩ :=
        replaced (fun contents => { contents with right := rootOf rest }) linked unique here links
        rfl apart different
      refine ⟨after, ?_, relinked⟩
      simp only [Frame.label] at here ran
      simp only [relink, holder, Frame.label, replaceChild, load_present here, bind, Except.bind,
        leftRef, rightRef, if_true,
        if_neg notLeft] at ran ⊢
      rw [ran]

structure Rebuilt (heap after : NodeHeap α) (tree built : BinaryTree (NodeRef × α)) : Prop where
  linked : Linked after.links built
  unique : (refs built).Nodup
  next : heap.next ≤ after.next
  created : ∀ ref, ref ∈ refs built ∧ ref ∉ refs tree ↔ heap.next ≤ ref ∧ ref < after.next
  gone : ∀ ref ∈ refs tree, ref ∉ refs built → after.nodes ref = none
  others : ∀ ref, ref ∉ refs tree → ref ∉ refs built → after.nodes ref = heap.nodes ref
  destroyed : ∃ list, after.destroyed = list ++ heap.destroyed ∧ list.Nodup ∧
    ∀ ref, ref ∈ list ↔ ref ∈ refs tree ∧ ref ∉ refs built

structure Discarded (heap after : NodeHeap α) (node : NodeRef) : Prop where
  next : after.next = heap.next
  destroyed : after.destroyed = node :: heap.destroyed
  gone : after.nodes node = none
  others : ∀ ref, ref ≠ node → after.nodes ref = heap.nodes ref

theorem discard_spec (set : SortedSet) {node : NodeRef} {value : α}
    (leaf : heap.links node = some ⟨value, none, none⟩)
    (old : node < heap.next) :
    ∃ after, discard heap set node = .ok (after, { set with size := set.size - 1 }) ∧
    Discarded heap after node := by
  obtain ⟨contents, here, same⟩ := present leaf
  have linked : Linked (heap.put node { contents with parent := none }).links
    (.node (node, value) .nil .nil) := by
    refine ⟨?_, trivial, trivial⟩
    rw [put_links, Function.update_self]
    exact congrArg some same
  have small : (Library.inorder (.node (node, value) .nil .nil)).length ≤
    (heap.put node { contents with parent := none }).next :=
    Nat.zero_lt_of_lt old
  obtain ⟨after, ran, deleted⟩ := delete_spec linked (List.nodup_singleton node) small
  have alone : ∀ ref, ref ∈ refs (.node (node, value) .nil .nil) ↔ ref = node :=
    fun ref => List.mem_singleton
  refine ⟨after, ?_, deleted.next, ?_, ?_, fun ref other => ?_⟩
  · simp only [rootOf_node] at ran
    simp only [discard, modify_present here, bind, Except.bind, ran]
  · obtain ⟨gone, log, perm⟩ := deleted.destroyed
    rw [log, List.perm_singleton.mp perm]
    rfl
  · rw [deleted.nodes, if_pos ((alone node).mpr rfl)]
  · rw [deleted.nodes, if_neg (mt (alone ref).mp other), put_other _ _ other]

private theorem discard_put (set : SortedSet) {node : NodeRef} (contents : Node α)
    (left : contents.left = none)
    (right : contents.right = none) (old : node < heap.next) :
    ∃ after, discard (heap.put node contents) set node =
      .ok (after, { set with size := set.size - 1 }) ∧
      Discarded heap after node := by
  have leaf : (heap.put node contents).links node = some ⟨contents.value, none, none⟩ := by
    rw [put_links, Function.update_self, Option.some.injEq, Links.mk.injEq]
    exact ⟨rfl, left, right⟩
  have small : node < (heap.put node contents).next := old
  obtain ⟨after, ran, discarded⟩ := discard_spec set leaf small
  refine ⟨after, ran, discarded.next, discarded.destroyed, discarded.gone, fun ref other => ?_⟩
  rw [discarded.others ref other, put_other _ _ other]

section Unlinking
variable {middle last : NodeHeap α} {rest : BinaryTree (NodeRef × α)}

private theorem Relinked.rebuilt (relinked : Relinked heap middle path label.1 (rootOf rest))
    (discarded : Discarded middle last label.1)
    (linked : Linked heap.links rest) (shape : (refs tree).Perm (label.1 :: refs rest))
    (unique : (refs (plug path tree)).Nodup) :
    Rebuilt heap last (plug path tree) (plug path rest) := by
  obtain ⟨uniquePath, uniqueTree, apart⟩ := nodup_plug.mp unique
  obtain ⟨notRest, uniqueRest⟩ := List.nodup_cons.mp (shape.nodup_iff.mp uniqueTree)
  simp only [shape.mem_iff, List.mem_cons, forall_eq_or_imp] at apart
  have members : ∀ ref, ref ∈ refs (plug path tree) ↔
    ref = label.1 ∨ ref ∈ refs (plug path rest) := by
    intro ref
    simp only [mem_refs_plug, shape.mem_iff, List.mem_cons, or_assoc]
  have notBuilt : label.1 ∉ refs (plug path rest) := by
    simp only [mem_refs_plug, not_or]
    exact ⟨notRest, apart.1⟩
  have kept : ∀ ref, ref ≠ label.1 → last.links ref = middle.links ref :=
    fun ref other => links_congr (discarded.others ref other)
  refine ⟨linked_plug.mpr ⟨?_, ?_⟩, nodup_plug.mpr ⟨uniquePath, uniqueRest, apart.2⟩, ?_,
    fun ref => ?_, fun ref inTree out => ?_,
    fun ref notTree out => ?_, [label.1], ?_, List.nodup_singleton _, fun ref => ?_⟩
  · apply relinked.linked.congr
    intro ref member
    apply kept
    rintro rfl
    exact apart.1 member
  · apply linked.congr
    intro ref member
    rw [kept, relinked.links]
    · exact fun same => apart.2 ref member (mem_pathRefs_of_holder same)
    · rintro rfl
      exact notRest member
  · exact Nat.le_of_eq (discarded.next.trans relinked.next).symm
  · rw [discarded.next, relinked.next]
    constructor
    · exact fun ⟨inBuilt, notTree⟩ => absurd ((members ref).mpr (.inr inBuilt)) notTree
    · exact fun ⟨low, high⟩ => absurd high (Nat.not_lt.mpr low)
  · obtain rfl | inBuilt := (members ref).mp inTree
    · exact discarded.gone
    · exact absurd inBuilt out
  · simp only [members, not_or] at notTree
    rw [discarded.others ref notTree.1]
    simp only [mem_refs_plug, not_or] at out
    apply relinked.nodes ref
    · exact fun same => out.2 (mem_pathRefs_of_holder same)
    · exact notTree.1
    · exact fun same => out.1 (mem_refs_of_rootOf same)
  · rw [discarded.destroyed, relinked.destroyed]
    rfl
  · rw [List.mem_singleton, members]
    constructor
    · rintro rfl
      exact ⟨.inl rfl, notBuilt⟩
    · exact fun ⟨inTree, out⟩ => inTree.resolve_right out

/-- Parents stay right as well, unless the only subtree of the root is all that is left. -/
theorem Relinked.parented (relinked : Relinked heap middle path label.1 (rootOf rest))
    (discarded : Discarded middle last label.1)
    (shape : (refs tree).Perm (label.1 :: refs rest)) (unique : (refs (plug path tree)).Nodup)
    (parentedPath : ParentedPath heap.parents path)
    (parentedRest : Parented heap.parents (some label.1) rest) :
    Parented last.parents none (plug path rest) ↔ (path = [] → rest = .nil) := by
  obtain ⟨_, uniqueTree, apart⟩ := nodup_plug.mp unique
  obtain ⟨notRest, uniqueRest⟩ := List.nodup_cons.mp (shape.nodup_iff.mp uniqueTree)
  simp only [shape.mem_iff, List.mem_cons, forall_eq_or_imp] at apart
  have kept : ∀ ref, ref ≠ label.1 → rootOf rest ≠ some ref →
    last.parents ref = heap.parents ref := by
    intro ref other notRoot
    rw [parents_congr (discarded.others ref other), relinked.parents ref other]
    exact fun root => absurd root notRoot
  constructor
  · rintro parented rfl
    cases rest with
    | nil => rfl
    | node top left right =>
      have different : top.1 ≠ label.1 := by
        rintro same
        apply notRest
        simp [refs_node, same]
      have lasting : last.parents top.1 = heap.parents top.1 := by
        rw [parents_congr (discarded.others top.1 different),
          relinked.parents top.1 different fun _ => rfl]
      have orphan : last.parents top.1 = some none := parented.1
      rw [lasting, parentedRest.1] at orphan
      cases orphan
  intro settled
  refine parented_plug.mpr ⟨parentedPath.congr fun ref member => ?_, ?_⟩
  · apply kept
    · rintro rfl
      exact apart.1 member
    · exact fun root => apart.2 ref (mem_refs_of_rootOf root) member
  · cases rest with
    | nil => trivial
    | node top left right =>
      obtain ⟨_, _, outLeft, outRight, _⟩ := nodup_node uniqueRest
      have inner : ∀ ref ∈ refs (.node top left right), ref ≠ top.1 →
        last.parents ref = heap.parents ref := by
        intro ref member notTop
        apply kept
        · rintro rfl
          exact notRest member
        · rintro ⟨⟩
          exact notTop rfl
      simp only [refs_node, List.mem_append, List.mem_cons] at inner notRest
      have held : holder path ≠ none := by
        cases path with
        | nil => exact fun _ => nomatch settled rfl
        | cons frame outer => exact nofun
      have different : top.1 ≠ label.1 := fun same => notRest (.inr (.inl same.symm))
      refine ⟨?_, parentedRest.2.1.congr fun ref member => ?_,
        parentedRest.2.2.congr fun ref member => ?_⟩
      · rw [parents_congr (discarded.others _ different)]
        exact relinked.adopted top.1 rfl held
      · apply inner ref (.inl member)
        rintro rfl
        exact outLeft member
      · apply inner ref (.inr (.inr member))
        rintro rfl
        exact outRight member

/-- Every branch of `remove_impl` hangs the only subtree of the node, if it has one, where
the node was. -/
theorem removeImpl_spec {set : SortedSet}
    (linked : Linked heap.links (plug path (.node label left right)))
    (unique : (refs (plug path (.node label left right))).Nodup)
    (old : ∀ ref ∈ refs (plug path (.node label left right)), ref < heap.next)
    (root : set.root = rootOf (plug path (.node label left right)))
    (single : left = .nil ∧ rest = right ∨ right = .nil ∧ rest = left) :
    ∃ after, removeImpl heap set label.1 (holder path) =
      .ok (after, ⟨rootOf (plug path rest), set.size - 1⟩) ∧
      Rebuilt heap after (plug path (.node label left right)) (plug path rest) ∧
      (Parented heap.parents none (plug path (.node label left right)) →
        (Parented after.parents none (plug path rest) ↔ (path = [] → rest = .nil))) := by
  have ⟨linkedPath, linkedNode⟩ := linked_plug.mp linked
  obtain ⟨uniquePath, uniqueNode, apart⟩ := nodup_plug.mp unique
  have shape : (refs (.node label left right)).Perm (label.1 :: refs rest) := by
    obtain ⟨rfl, rfl⟩ | ⟨rfl, rfl⟩ := single
    · exact .refl _
    · rw [refs_node]
      exact List.perm_append_singleton ..
  have linkedRest : Linked heap.links rest := by
    obtain ⟨rfl, rfl⟩ | ⟨rfl, rfl⟩ := single
    · exact linkedNode.2.2
    · exact linkedNode.2.1
  have parentedRest : ∀ above, Parented heap.parents above (.node label left right) →
      Parented heap.parents (some label.1) rest := by
    intro above parented
    obtain ⟨rfl, rfl⟩ | ⟨rfl, rfl⟩ := single
    · exact parented.2.2
    · exact parented.2.1
  have notRest : label.1 ∉ refs rest := (List.nodup_cons.mp (shape.nodup_iff.mp uniqueNode)).1
  have alive : ∀ ref, some label.1 = some ref ∨ rootOf rest = some ref →
    heap.nodes ref ≠ none ∧ ref ∉ pathRefs path := by
    intro ref used
    have inNode : ref ∈ refs (.node label left right) := by
      rw [shape.mem_iff, List.mem_cons]
      obtain ⟨⟨⟩⟩ | top := used
      · exact .inl rfl
      · exact .inr (mem_refs_of_rootOf top)
    exact ⟨linked_alive linkedNode ref inNode, apart ref inNode⟩
  have different : rootOf rest ≠ some label.1 := fun same => notRest (mem_refs_of_rootOf same)
  obtain ⟨middle, ranRelink, relinked⟩ := relink_spec linkedPath root uniquePath different alive
  have oldLabel : label.1 < heap.next := old label.1 (by simp [mem_refs_plug, refs_node])
  have outside : some label.1 ≠ holder path :=
    fun same => (alive label.1 (.inl rfl)).2 (mem_pathRefs_of_holder same)
  have oldMiddle : label.1 < middle.next := relinked.next.symm ▸ oldLabel
  have sameLinks : middle.links label.1 = some ⟨label.2, rootOf left, rootOf right⟩ := by
    rw [relinked.links _ outside]
    exact linkedNode.1
  obtain ⟨contents, here, same⟩ := NodeHeap.present linkedNode.1
  obtain ⟨kept, keptHere, keptSame⟩ := NodeHeap.present sameLinks
  have leftRef : contents.left = rootOf left := congrArg Links.left same
  have rightRef : contents.right = rootOf right := congrArg Links.right same
  have keptLeft : kept.left = rootOf left := congrArg Links.left keptSame
  have keptRight : kept.right = rootOf right := congrArg Links.right keptSame
  have finish : ∀ {after}, Discarded middle after label.1 →
    Rebuilt heap after (plug path (.node label left right)) (plug path rest) ∧
      (Parented heap.parents none (plug path (.node label left right)) →
        (Parented after.parents none (plug path rest) ↔ (path = [] → rest = .nil))) := by
    intro after discarded
    refine ⟨relinked.rebuilt discarded linkedRest shape unique, fun parented => ?_⟩
    have ⟨parentedPath, parentedNode⟩ := parented_plug.mp parented
    exact relinked.parented discarded shape unique parentedPath (parentedRest _ parentedNode)
  simp only [removeImpl, load_present here, bind, Except.bind, leftRef, rightRef]
  obtain ⟨rfl, rfl⟩ | ⟨rfl, rfl⟩ := single
  · cases rest with
    | nil =>
      have leaf : middle.links label.1 = some ⟨label.2, none, none⟩ := sameLinks
      obtain ⟨after, ran, discarded⟩ :=
        discard_spec ⟨rootOf (plug path .nil), set.size⟩ leaf oldMiddle
      rw [rootOf_nil] at ranRelink
      exact ⟨after, by simp [ranRelink, ran], finish discarded⟩
    | node top inner outer =>
      obtain ⟨after, ran, discarded⟩ :=
        discard_put ⟨rootOf (plug path (.node top inner outer)), set.size⟩
          { kept with right := none } keptLeft rfl oldMiddle
      rw [rootOf_node] at ranRelink
      exact ⟨after, by simp [ranRelink, modify_present keptHere, ran], finish discarded⟩
  · cases rest with
    | nil =>
      have leaf : middle.links label.1 = some ⟨label.2, none, none⟩ := sameLinks
      obtain ⟨after, ran, discarded⟩ :=
        discard_spec ⟨rootOf (plug path .nil), set.size⟩ leaf oldMiddle
      rw [rootOf_nil] at ranRelink
      exact ⟨after, by simp [ranRelink, ran], finish discarded⟩
    | node top inner outer =>
      obtain ⟨after, ran, discarded⟩ :=
        discard_put ⟨rootOf (plug path (.node top inner outer)), set.size⟩
          { kept with left := none } rfl keptRight oldMiddle
      rw [rootOf_node] at ranRelink
      exact ⟨after, by simp [ranRelink, modify_present keptHere, ran], finish discarded⟩

end Unlinking

end SortedSet
end PicoOs.Std
