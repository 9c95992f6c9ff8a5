import Mathlib

/-! Binary trees whose nodes refer to each other. A label is the reference of a node and
the value it stores. A path leads from the root to a subtree, innermost step first, and
keeps what lies beside it. -/

namespace PicoOs.Library

section Paths
variable {β : Type u}

def inorder : BinaryTree β → List β
  | .nil => []
  | .node label left right => inorder left ++ label :: inorder right

/-- A step into the left or the right subtree of a node, with the other one as sibling. -/
inductive Frame (β : Type u) where
  | left (label : β) (sibling : BinaryTree β)
  | right (label : β) (sibling : BinaryTree β)

namespace Frame

def label : Frame β → β
  | left label _ | right label _ => label

def sibling : Frame β → BinaryTree β
  | left _ sibling | right _ sibling => sibling

def fill : Frame β → BinaryTree β → BinaryTree β
  | left label sibling, tree => .node label tree sibling
  | right label sibling, tree => .node label sibling tree

def before : Frame β → List β
  | left _ _ => []
  | right label sibling => inorder sibling ++ [label]

def after : Frame β → List β
  | left label sibling => label :: inorder sibling
  | right _ _ => []

theorem inorder_fill (frame : Frame β) (tree : BinaryTree β) :
    inorder (frame.fill tree) = frame.before ++ inorder tree ++ frame.after := by
  cases frame <;> simp [fill, before, after, inorder]

/-- The label of a frame is beside its hole, and so is everything in the sibling. -/
theorem beside (frame : Frame β) {label : β} :
    label ∈ frame.before ++ frame.after ↔ label = frame.label ∨ label ∈ inorder frame.sibling := by
  cases frame <;> simp [before, after, Frame.label, sibling, or_comm]

end Frame

def plug : List (Frame β) → BinaryTree β → BinaryTree β
  | [], tree => tree
  | frame :: rest, tree => plug rest (frame.fill tree)

/-- What comes before the hole of a path in inorder. -/
def before : List (Frame β) → List β
  | [] => []
  | frame :: rest => before rest ++ frame.before

def after : List (Frame β) → List β
  | [] => []
  | frame :: rest => frame.after ++ after rest

theorem inorder_plug (path : List (Frame β)) (tree : BinaryTree β) :
    inorder (plug path tree) = before path ++ inorder tree ++ after path := by
  induction path generalizing tree with
  | nil => simp [plug, before, after]
  | cons frame rest ih => simp [plug, before, after, ih, frame.inorder_fill]

theorem plug_append (inner outer : List (Frame β)) (tree : BinaryTree β) :
    plug (inner ++ outer) tree = plug outer (plug inner tree) := by
  induction inner generalizing tree with
  | nil => rfl
  | cons frame rest ih => exact ih (frame.fill tree)

theorem before_append (inner outer : List (Frame β)) :
    before (inner ++ outer) = before outer ++ before inner := by
  induction inner with
  | nil => simp [before]
  | cons frame rest ih => simp [before, ih]

theorem after_append (inner outer : List (Frame β)) :
    after (inner ++ outer) = after inner ++ after outer := by
  induction inner with
  | nil => simp [after]
  | cons frame rest ih => simp [after, ih]

/-- The root of a tree is beside every hole below it. -/
theorem plug_root {path : List (Frame β)} (below : path ≠ []) (tree : BinaryTree β) :
    ∃ label left right, plug path tree = .node label left right ∧
    label ∈ before path ++ after path := by
  induction path generalizing tree with
  | nil => exact absurd rfl below
  | cons frame rest ih =>
    by_cases top : rest = []
    · subst top
      cases frame with
      | left label sibling =>
          exact ⟨label, tree, sibling, rfl, by simp [before, after, Frame.before, Frame.after]⟩
      | right label sibling =>
          exact ⟨label, sibling, tree, rfl, by simp [before, after, Frame.before, Frame.after]⟩
    · obtain ⟨label, left, right, same, member⟩ := ih top (frame.fill tree)
      refine ⟨label, left, right, same, ?_⟩
      simp only [before, after, List.mem_append] at member ⊢
      tauto

end Paths

section Links
variable {ρ : Type u} {α : Type v}

/-- What a node stores besides the reference to its parent. -/
structure Links (ρ : Type u) (α : Type v) where
  value : α
  left : Option ρ
  right : Option ρ

def rootOf : BinaryTree (ρ × α) → Option ρ
  | .nil => none
  | .node label _ _ => some label.1

def refs (tree : BinaryTree (ρ × α)) : List ρ := (inorder tree).map Prod.fst

def values (tree : BinaryTree (ρ × α)) : List α := (inorder tree).map Prod.snd

@[simp] theorem rootOf_nil : rootOf (.nil : BinaryTree (ρ × α)) = none := rfl

@[simp] theorem rootOf_node (label : ρ × α) (left right : BinaryTree (ρ × α)) :
    rootOf (.node label left right) = some label.1 := rfl

@[simp] theorem refs_nil : refs (.nil : BinaryTree (ρ × α)) = [] := rfl

@[simp] theorem values_nil : values (.nil : BinaryTree (ρ × α)) = [] := rfl

theorem refs_node (label : ρ × α) (left right : BinaryTree (ρ × α)) :
    refs (.node label left right) = refs left ++ label.1 :: refs right := by
  simp [refs, inorder]

theorem values_node (label : ρ × α) (left right : BinaryTree (ρ × α)) :
    values (.node label left right) = values left ++ label.2 :: values right := by
  simp [values, inorder]

theorem length_values (tree : BinaryTree (ρ × α)) : (values tree).length = (inorder tree).length :=
  List.length_map _

theorem length_refs (tree : BinaryTree (ρ × α)) : (refs tree).length = (inorder tree).length :=
  List.length_map _

theorem mem_refs_of_rootOf {tree : BinaryTree (ρ × α)} {ref : ρ} (root : rootOf tree = some ref) :
    ref ∈ refs tree := by
  cases tree with
  | nil => cases root
  | node label left right =>
    cases root
    simp [refs_node]

theorem nodup_node {label : ρ × α} {left right : BinaryTree (ρ × α)}
    (unique : (refs (.node label left right)).Nodup) :
    (refs left).Nodup ∧ (refs right).Nodup ∧ label.1 ∉ refs left ∧ label.1 ∉ refs right ∧
      ∀ ref ∈ refs left, ref ∉ refs right := by
  rw [refs_node] at unique
  have ⟨outside, both⟩ := List.nodup_cons.mp (List.nodup_middle.mp unique)
  have ⟨first, last, apart⟩ := List.nodup_append'.mp both
  simp only [List.mem_append, not_or] at outside
  exact ⟨first, last, outside.1, outside.2, fun ref member => apart member⟩

theorem values_plug (path : List (Frame (ρ × α))) (tree : BinaryTree (ρ × α)) :
    values (plug path tree) = (before path).map Prod.snd ++ values tree ++
      (after path).map Prod.snd := by
  simp [values, inorder_plug]

theorem refs_plug (path : List (Frame (ρ × α))) (tree : BinaryTree (ρ × α)) :
    refs (plug path tree) = (before path).map Prod.fst ++ refs tree ++
      (after path).map Prod.fst := by
  simp [refs, inorder_plug]

/-- The references that a path passes or leaves aside. -/
def pathRefs (path : List (Frame (ρ × α))) : List ρ := (before path ++ after path).map Prod.fst

theorem pathRefs_cons (frame : Frame (ρ × α)) (rest : List (Frame (ρ × α))) {ref : ρ} :
    ref ∈ pathRefs (frame :: rest) ↔
    ref = frame.label.1 ∨ ref ∈ refs frame.sibling ∨ ref ∈ pathRefs rest := by
  have beside : ref ∈ (frame.before ++ frame.after).map Prod.fst ↔
    ref = frame.label.1 ∨ ref ∈ refs frame.sibling := by
    simp only [List.mem_map, frame.beside, refs]
    constructor
    · rintro ⟨label, rfl | member, rfl⟩
      · exact .inl rfl
      · exact .inr ⟨label, member, rfl⟩
    · rintro (rfl | ⟨label, member, rfl⟩)
      · exact ⟨_, .inl rfl, rfl⟩
      · exact ⟨label, .inr member, rfl⟩
  simp only [pathRefs, before, after, List.map_append, List.mem_append] at beside ⊢
  tauto

/-- The references of a tree without duplicates are those of the path and, apart from
them, those of the subtree. -/
theorem nodup_plug {path : List (Frame (ρ × α))} {tree : BinaryTree (ρ × α)} :
    (refs (plug path tree)).Nodup ↔
      (pathRefs path).Nodup ∧ (refs tree).Nodup ∧ ∀ ref ∈ refs tree, ref ∉ pathRefs path := by
  have moved : (refs (plug path tree)).Perm (refs tree ++ pathRefs path) := by
    rw [refs_plug, pathRefs, List.map_append, ← List.append_assoc]
    exact List.Perm.append_right _ List.perm_append_comm
  rw [moved.nodup_iff, List.nodup_append']
  exact ⟨fun ⟨inner, outer, apart⟩ => ⟨outer, inner, fun ref => @apart ref⟩,
    fun ⟨outer, inner, apart⟩ => ⟨inner, outer, fun ref => apart ref⟩⟩

theorem mem_refs_plug {path : List (Frame (ρ × α))} {tree : BinaryTree (ρ × α)} {ref : ρ} :
    ref ∈ refs (plug path tree) ↔ ref ∈ refs tree ∨ ref ∈ pathRefs path := by
  simp only [refs_plug, pathRefs, List.map_append, List.mem_append]
  tauto

/-- What the node of a frame stores when its hole refers to `hole`. -/
def Frame.links : Frame (ρ × α) → Option ρ → Links ρ α
  | left label sibling, hole => ⟨label.2, hole, rootOf sibling⟩
  | right label sibling, hole => ⟨label.2, rootOf sibling, hole⟩

def Linked (links : ρ → Option (Links ρ α)) : BinaryTree (ρ × α) → Prop
  | .nil => True
  | .node label left right =>
    links label.1 = some ⟨label.2, rootOf left, rootOf right⟩ ∧ Linked links left ∧
      Linked links right

def LinkedPath (links : ρ → Option (Links ρ α)) : List (Frame (ρ × α)) → Option ρ → Prop
  | [], _ => True
  | frame :: rest, hole =>
    links frame.label.1 = some (frame.links hole) ∧ Linked links frame.sibling ∧
      LinkedPath links rest (some frame.label.1)

variable {links changed : ρ → Option (Links ρ α)}

theorem rootOf_fill (frame : Frame (ρ × α)) (tree : BinaryTree (ρ × α)) :
    rootOf (frame.fill tree) = some frame.label.1 := by
  cases frame <;> rfl

/-- The root of a tree is on every path but the empty one. -/
theorem rootOf_plug {path : List (Frame (ρ × α))} {tree other : BinaryTree (ρ × α)}
    (same : path = [] → rootOf tree = rootOf other) :
    rootOf (plug path tree) = rootOf (plug path other) := by
  induction path generalizing tree other with
  | nil => exact same rfl
  | cons frame rest ih =>
      exact ih fun _ => (rootOf_fill frame tree).trans (rootOf_fill frame other).symm

theorem linked_fill {frame : Frame (ρ × α)} {tree : BinaryTree (ρ × α)} :
    Linked links (frame.fill tree) ↔
      links frame.label.1 = some (frame.links (rootOf tree)) ∧ Linked links frame.sibling ∧
      Linked links tree := by
  cases frame with
  | left =>
    simp only [Frame.fill, Linked, Frame.label, Frame.links, Frame.sibling]
    tauto
  | right => rfl

theorem linked_plug {path : List (Frame (ρ × α))} {tree : BinaryTree (ρ × α)} :
    Linked links (plug path tree) ↔ LinkedPath links path (rootOf tree) ∧ Linked links tree := by
  induction path generalizing tree with
  | nil => simp [plug, LinkedPath]
  | cons frame rest ih =>
    simp only [plug, ih, LinkedPath, rootOf_fill, linked_fill]
    tauto

/-- Only the nodes of a tree matter for its links. -/
theorem Linked.congr {tree : BinaryTree (ρ × α)} (linked : Linked links tree)
    (same : ∀ ref ∈ refs tree, changed ref = links ref) : Linked changed tree := by
  induction tree with
  | nil => trivial
  | node label left right ihLeft ihRight =>
    simp only [refs, inorder, List.map_append, List.map_cons, List.mem_append,
      List.mem_cons] at same
    refine ⟨?_, ihLeft linked.2.1 ?_, ihRight linked.2.2 ?_⟩
    · exact (same _ (.inr (.inl rfl))).trans linked.1
    · exact fun ref member => same ref (.inl member)
    · exact fun ref member => same ref (.inr (.inr member))

/-- A root and the links below it belong to one tree. -/
theorem Linked.unique {tree other : BinaryTree (ρ × α)} (linked : Linked links tree)
    (also : Linked links other)
    (same : rootOf tree = rootOf other) : tree = other := by
  induction tree generalizing other with
  | nil =>
    cases other with
    | nil => rfl
    | node => cases same
  | node label left right ihLeft ihRight =>
    cases other with
    | nil => cases same
    | node label' left' right' =>
      have ref : label.1 = label'.1 := Option.some.inj same
      have contents := linked.1
      rw [ref, also.1, Option.some.injEq, Links.mk.injEq] at contents
      obtain ⟨value, leftRoot, rightRoot⟩ := contents
      rw [ihLeft linked.2.1 also.2.1 leftRoot.symm, ihRight linked.2.2 also.2.2 rightRoot.symm,
        Prod.ext ref value.symm]

theorem LinkedPath.congr {path : List (Frame (ρ × α))} {hole : Option ρ}
    (linked : LinkedPath links path hole)
    (same : ∀ ref ∈ pathRefs path, changed ref = links ref) : LinkedPath changed path hole := by
  induction path generalizing hole with
  | nil => trivial
  | cons frame rest ih =>
    simp only [pathRefs_cons] at same
    refine ⟨?_, linked.2.1.congr ?_, ih linked.2.2 ?_⟩
    · exact (same _ (.inl rfl)).trans linked.1
    · exact fun ref member => same ref (.inr (.inl member))
    · exact fun ref member => same ref (.inr (.inr member))

/-- Another reference in the hole of a path asks for a change of the innermost node only. -/
theorem LinkedPath.refill {frame : Frame (ρ × α)} {rest : List (Frame (ρ × α))}
    {hole filled : Option ρ}
    (linked : LinkedPath links (frame :: rest) hole) (unique : (pathRefs (frame :: rest)).Nodup)
    (here : changed frame.label.1 = some (frame.links filled))
    (same : ∀ ref ∈ pathRefs (frame :: rest), ref ≠ frame.label.1 → changed ref = links ref) :
    LinkedPath changed (frame :: rest) filled := by
  have whole : (refs (plug rest (frame.fill .nil))).Nodup := by
    apply (nodup_plug : (refs (plug (frame :: rest) .nil)).Nodup ↔ _).mpr
    exact ⟨unique, .nil, by simp [refs, inorder]⟩
  obtain ⟨_, inside, apart⟩ := nodup_plug.mp whole
  have moved : (refs (frame.fill .nil)).Perm (frame.label.1 :: refs frame.sibling) := by
    cases frame with
    | left label sibling => exact .refl _
    | right label sibling => simp [refs, Frame.fill, inorder, Frame.label, Frame.sibling]
  have label : frame.label.1 ∈ refs (frame.fill .nil) := moved.mem_iff.mpr (by simp)
  have beside : frame.label.1 ∉ refs frame.sibling :=
    (List.nodup_cons.mp (moved.nodup_iff.mp inside)).1
  refine ⟨here, linked.2.1.congr ?_, linked.2.2.congr ?_⟩
  · intro ref member
    refine same ref ((pathRefs_cons frame rest).mpr (.inr (.inl member))) ?_
    rintro rfl
    exact beside member
  · intro ref member
    refine same ref ((pathRefs_cons frame rest).mpr (.inr (.inr member))) ?_
    rintro rfl
    exact apart _ label member

end Links

section Parents
variable {ρ : Type u} {α : Type v}

/-- The node that the hole of a path belongs to. -/
def holder : List (Frame (ρ × α)) → Option ρ
  | [] => none
  | frame :: _ => some frame.label.1

theorem mem_pathRefs_of_holder {path : List (Frame (ρ × α))} {ref : ρ}
    (held : some ref = holder path) :
    ref ∈ pathRefs path := by
  cases path with
  | nil => cases held
  | cons frame rest =>
    cases held
    exact (pathRefs_cons frame rest).mpr (.inl rfl)

/-- Every node of the tree refers to its parent, the topmost one to `above`. -/
def Parented (parents : ρ → Option (Option ρ)) : Option ρ → BinaryTree (ρ × α) → Prop
  | _, .nil => True
  | above, .node label left right =>
    parents label.1 = some above ∧ Parented parents (some label.1) left ∧
      Parented parents (some label.1) right

def ParentedPath (parents : ρ → Option (Option ρ)) : List (Frame (ρ × α)) → Prop
  | [] => True
  | frame :: rest =>
    parents frame.label.1 = some (holder rest) ∧
      Parented parents (some frame.label.1) frame.sibling ∧
      ParentedPath parents rest

variable {parents changed : ρ → Option (Option ρ)}

theorem parented_plug {path : List (Frame (ρ × α))} {tree : BinaryTree (ρ × α)} :
    Parented parents none (plug path tree) ↔
    ParentedPath parents path ∧ Parented parents (holder path) tree := by
  induction path generalizing tree with
  | nil => simp [plug, ParentedPath, holder]
  | cons frame rest ih =>
    cases frame <;> simp only [plug, ih, Frame.fill, Parented, ParentedPath, Frame.label,
      Frame.sibling, holder] <;> tauto

theorem Parented.congr {above : Option ρ} {tree : BinaryTree (ρ × α)}
    (parented : Parented parents above tree)
    (same : ∀ ref ∈ refs tree, changed ref = parents ref) : Parented changed above tree := by
  induction tree generalizing above with
  | nil => trivial
  | node label left right ihLeft ihRight =>
    simp only [refs, inorder, List.map_append, List.map_cons, List.mem_append,
      List.mem_cons] at same
    refine ⟨?_, ihLeft parented.2.1 ?_, ihRight parented.2.2 ?_⟩
    · exact (same _ (.inr (.inl rfl))).trans parented.1
    · exact fun ref member => same ref (.inl member)
    · exact fun ref member => same ref (.inr (.inr member))

theorem ParentedPath.congr {path : List (Frame (ρ × α))} (parented : ParentedPath parents path)
    (same : ∀ ref ∈ pathRefs path, changed ref = parents ref) : ParentedPath changed path := by
  induction path with
  | nil => trivial
  | cons frame rest ih =>
    simp only [pathRefs_cons] at same
    refine ⟨?_, parented.2.1.congr ?_, ih parented.2.2 ?_⟩
    · exact (same _ (.inl rfl)).trans parented.1
    · exact fun ref member => same ref (.inr (.inl member))
    · exact fun ref member => same ref (.inr (.inr member))

end Parents
end PicoOs.Library
