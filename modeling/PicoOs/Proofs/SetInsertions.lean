import PicoOs.Library.Outcome
import PicoOs.Proofs.SetIteration

/-! Insertions leave every node where it is. A node that is there stays in its set, with a value
that is equivalent to the one it had, so that an iterator does not lose its place. -/

namespace PicoOs.Std
open Library NodeHeap
variable {α : Type}

/-- Every label of a tree is where some path leads. -/
theorem exists_plug {β : Type} {tree : BinaryTree β} {label : β}
    (member : label ∈ Library.inorder tree) :
    ∃ path left right, plug path (.node label left right) = tree := by
  induction tree with
  | nil => cases member
  | node top left right ihLeft ihRight =>
    rcases List.mem_append.mp member with inLeft | inRight
    · obtain ⟨path, inner, outer, rfl⟩ := ihLeft inLeft
      exact ⟨path ++ [.left top right], inner, outer, plug_append _ _ _⟩
    · rcases List.mem_cons.mp inRight with rfl | inRight
      · exact ⟨[], left, right, rfl⟩
      · obtain ⟨path, inner, outer, rfl⟩ := ihRight inRight
        exact ⟨path ++ [.right top left], inner, outer, plug_append _ _ _⟩

namespace NodeHeap
variable {heap after : NodeHeap α} {ref node : NodeRef} {contents : Node α}

private theorem put_value (here : heap.nodes ref = some contents) (changed : Node α)
    (same : ref = node → changed.value = contents.value) :
    ∃ later, (heap.put node changed).nodes ref = some later ∧ later.value = contents.value := by
  by_cases isNode : ref = node
  · subst isNode
    exact ⟨changed, put_same heap ref changed, same rfl⟩
  · exact ⟨contents, (put_other heap changed isNode).trans here, rfl⟩

private theorem modify_value {change : Node α → Node α} (here : heap.nodes ref = some contents)
    (done : heap.modify node change = .ok after)
    (kept : ∀ contents, (change contents).value = contents.value) :
    ∃ later, after.nodes ref = some later ∧ later.value = contents.value := by
  obtain ⟨before, loaded, done⟩ := bind_ok.mp done
  cases Except.ok.inj done
  refine put_value here _ ?_
  rintro rfl
  rw [load_present here] at loaded
  cases Except.ok.inj loaded
  exact kept contents

end NodeHeap

namespace SortedSet
variable {order : Comparison α} {heap after : NodeHeap α} {set : SortedSet} {value : α}
  {ref node : NodeRef} {contents : Node α}
  {result : NodeHeap α × SortedSet} {tree : BinaryTree (NodeRef × α)}

private theorem searchImpl_found {fuel : Nat} {parent subtree above : Option NodeRef}
    (searched : searchImpl order heap value fuel parent subtree = .ok (some node, above)) :
    ∃ contents, heap.nodes node = some contents ∧ order.equivalent value contents.value := by
  induction fuel generalizing parent subtree with
  | zero => cases subtree <;> cases searched
  | succ fuel ih =>
    cases subtree with
    | none => cases searched
    | some current =>
      rw [searchImpl] at searched
      obtain ⟨contents, loaded, searched⟩ := bind_ok.mp searched
      split at searched
      next => exact ih searched
      next notLess =>
        split at searched
        next => exact ih searched
        next notGreater =>
          obtain rfl : current = node := Option.some.inj (Prod.mk.inj (Except.ok.inj searched)).1
          have here : heap.nodes current = some contents := by
            unfold NodeHeap.load at loaded
            split at loaded
            next found => rw [found, Except.ok.inj loaded]
            next => cases loaded
          exact ⟨contents, here, by simp [Comparison.equivalent, notLess, notGreater]⟩

/-- The step lemma of an insertion, for a node that is there. -/
theorem insertImpl_value (inserted : set.insertImpl order heap value = .ok result)
    (here : heap.nodes ref = some contents)
    (old : ref < heap.next) : ∃ later, result.1.nodes ref = some later ∧
      (later.value = contents.value ∨ later.value = value ∧
        order.equivalent value contents.value) := by
  have created : (heap.create value).2.nodes ref = some contents := by
    rw [(create_grown heap value).nodes ref List.not_mem_nil (Nat.ne_of_lt old), here]
  obtain ⟨⟨found, parent⟩, searched, inserted⟩ := bind_ok.mp inserted
  cases found with
  | some node =>
    obtain ⟨changed, modified, inserted⟩ := bind_ok.mp inserted
    cases Except.ok.inj inserted
    obtain ⟨before, loaded, modified⟩ := bind_ok.mp modified
    cases Except.ok.inj modified
    by_cases isNode : ref = node
    · subst isNode
      obtain ⟨same, found, equivalent⟩ := searchImpl_found searched
      obtain rfl : same = contents := Option.some.inj (found.symm.trans here)
      exact ⟨_, put_same heap ref _, .inr ⟨rfl, equivalent⟩⟩
    · exact ⟨contents, (put_other heap _ isNode).trans here, .inl rfl⟩
  | none =>
    cases parent with
    | none =>
      cases Except.ok.inj inserted
      exact ⟨contents, created, .inl rfl⟩
    | some parent =>
      obtain ⟨above, _, inserted⟩ := bind_ok.mp inserted
      have attached {change : Node α → Node α} {middle last : NodeHeap α}
          (first : (heap.create value).2.modify parent change = .ok middle)
          (second : middle.modify (heap.create value).1 (fun contents => { contents with parent := some parent }) = .ok last)
          (kept : ∀ contents, (change contents).value = contents.value) :
          ∃ later, last.nodes ref = some later ∧ later.value = contents.value := by
        obtain ⟨between, there, same⟩ := modify_value created first kept
        obtain ⟨later, here, still⟩ := modify_value there second fun _ => rfl
        exact ⟨later, here, still.trans same⟩
      dsimp only at inserted
      split at inserted
      next =>
        split at inserted
        next =>
          obtain ⟨middle, first, inserted⟩ := bind_ok.mp inserted
          obtain ⟨last, second, inserted⟩ := bind_ok.mp inserted
          cases Except.ok.inj inserted
          obtain ⟨later, there, same⟩ := attached first second fun _ => rfl
          exact ⟨later, there, .inl same⟩
        next => cases inserted
      next =>
        split at inserted
        next =>
          split at inserted
          next =>
            obtain ⟨middle, first, inserted⟩ := bind_ok.mp inserted
            obtain ⟨last, second, inserted⟩ := bind_ok.mp inserted
            cases Except.ok.inj inserted
            obtain ⟨later, there, same⟩ := attached first second fun _ => rfl
            exact ⟨later, there, .inl same⟩
          next => cases inserted
        next => cases inserted

private theorem mem_refs {label : NodeRef × α} (member : label ∈ Library.inorder tree) :
    label.1 ∈ refs tree := List.mem_map_of_mem member

/-- A label of a tree is in the heap, with its value. -/
theorem linked_value (linked : Linked heap.links tree) {label : NodeRef × α}
    (member : label ∈ Library.inorder tree) :
    ∃ contents, heap.nodes label.1 = some contents ∧ contents.value = label.2 := by
  obtain ⟨path, left, right, rfl⟩ := exists_plug member
  obtain ⟨contents, here, same⟩ := present (linked_plug.mp linked).2.1
  exact ⟨contents, here, congrArg Links.value same⟩

private theorem Becomes.keeps {list : List α} {condition : Prop} {built : BinaryTree (NodeRef × α)}
    (holds : Holds order heap set tree)
    (becomes : Becomes order heap tree list condition result built)
    (inserted : set.insertImpl order heap value = .ok result)
    {label : NodeRef × α} (member : label ∈ Library.inorder tree) :
    ∃ other, (label.1, other) ∈ Library.inorder built ∧
    (other = label.2 ∨ other = value ∧ order.equivalent value label.2) := by
  obtain ⟨contents, here, same⟩ := linked_value holds.linked member
  have old := holds.old label.1 (mem_refs member)
  obtain ⟨later, there, values⟩ := insertImpl_value inserted here old
  have stays : label.1 ∈ refs built := by
    by_contra gone
    rw [becomes.rebuilt.gone label.1 (mem_refs member) gone] at there
    cases there
  obtain ⟨kept, inBuilt, ref⟩ := List.mem_map.mp stays
  obtain ⟨last, found, value⟩ := linked_value becomes.holds.linked inBuilt
  rw [ref] at found
  obtain rfl : later = last := Option.some.inj (there.symm.trans found)
  rw [same] at values
  refine ⟨later.value, ?_, values⟩
  rw [value, ← ref]
  exact inBuilt

end SortedSet

namespace SortedSets
open SortedSet
variable {order : Comparison α} {state : SortedSets α} {trees : SetId → BinaryTree (NodeRef × α)}

/-- An insertion puts its value into the place that it has in the list, and keeps nodes and
parents. -/
theorem Represents.insert (represents : Represents order state trees) (strict : order.Strict)
    (set : SetId) (value : α) :
    ∃ after built, state.execute order (.insert set value) = .ok after ∧
    Represents order after (Function.update trees set built) ∧
      Changes order (fun set => values (trees set)) (fun other => values (Function.update trees set built other)) (.insert set value) ∧
      (state.Parents trees → after.Parents (Function.update trees set built)) ∧
      ∀ label ∈ Library.inorder (trees set), ∃ other, (label.1, other) ∈ Library.inorder built ∧
        (other = label.2 ∨ other = value ∧ order.equivalent value label.2) := by
  obtain ⟨result, built, below, same, above, ran, splits, becomes⟩ :=
    insertImpl_spec (represents.holds set) strict value
  refine ⟨_, built, ?_, represents.replace becomes, ⟨below, same, above, splits, ?_⟩,
    fun parents => (represents.replace_parents becomes parents).mpr trivial, fun label member => ?_⟩
  · simp only [SortedSets.execute, ran, Functor.map, Except.map]
  · rw [values_update, becomes.values]
  · exact becomes.keeps (represents.holds set) ran member

end SortedSets
end PicoOs.Std
