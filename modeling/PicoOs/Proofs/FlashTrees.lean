import PicoOs.Tools.FlashImage

/-! Trees that are built from the bottom up. The entries of a directory are in front of it, so
that what is proved of them in this order holds of the whole tree. -/

namespace PicoOs.Tools

theorem bottomUp_append {known : List UInt32} {files more : List (UInt32 × Node)} :
    BottomUp known (files ++ more) ↔
    BottomUp known files ∧ BottomUp (known ++ files.map Prod.fst) more := by
  induction files generalizing known with
  | nil => simp [BottomUp]
  | cons file files ih =>
    rw [List.cons_append, BottomUp, ih, BottomUp, List.map_cons, List.append_assoc, and_assoc,
      and_assoc, and_assoc]
    rfl

/-- The last file is new, and its entries are there. -/
theorem bottomUp_concat {files : List (UInt32 × Node)} {file : UInt32 × Node} :
    BottomUp [] (files ++ [file]) ↔
    BottomUp [] files ∧ file.1 ∉ files.map Prod.fst ∧ file.2.Proper ∧
      ∀ child ∈ file.2.children, child ∈ files.map Prod.fst := by
  rw [bottomUp_append, BottomUp, List.nil_append, BottomUp, and_true]

theorem BottomUp.distinct {files : List (UInt32 × Node)} (bottomUp : BottomUp [] files) :
    (files.map Prod.fst).Nodup := by
  induction files using List.reverseRecOn with
  | nil => exact List.nodup_nil
  | append_singleton files file ih =>
    obtain ⟨before, new, _⟩ := bottomUp_concat.mp bottomUp
    rw [List.map_append, List.map_singleton, List.nodup_append]
    refine ⟨ih before, List.nodup_singleton _, fun inode member other same => ?_⟩
    obtain rfl := List.mem_singleton.mp same
    exact fun equal => new (equal ▸ member)

theorem BottomUp.proper {known : List UInt32} {files : List (UInt32 × Node)}
    (bottomUp : BottomUp known files) : ∀ file ∈ files, file.2.Proper := by
  induction files generalizing known with
  | nil => exact nofun
  | cons file files ih =>
    obtain ⟨_, proper, _, rest⟩ := bottomUp
    exact List.forall_mem_cons.mpr ⟨proper, ih rest⟩

theorem BottomUp.children {files : List (UInt32 × Node)} (bottomUp : BottomUp [] files) :
    ∀ file ∈ files, ∀ child ∈ file.2.children, child ∈ files.map Prod.fst := by
  induction files using List.reverseRecOn with
  | nil => exact nofun
  | append_singleton files file ih =>
    obtain ⟨before, _, _, there⟩ := bottomUp_concat.mp bottomUp
    rw [List.forall_mem_append, List.forall_mem_singleton, List.map_append]
    exact ⟨fun file member child mine => List.mem_append_left _ (ih before file member child mine),
      fun child mine => List.mem_append_left _ (there child mine)⟩

theorem BottomUp.unique {files : List (UInt32 × Node)} (bottomUp : BottomUp [] files)
    {inode : UInt32} {node other : Node}
    (there : (inode, node) ∈ files) (thereOther : (inode, other) ∈ files) : node = other :=
  congrArg Prod.snd (List.inj_on_of_nodup_map bottomUp.distinct there thereOther rfl)

def Enters (files : List (UInt32 × Node)) (directory child : UInt32) : Prop :=
  ∃ node, (directory, node) ∈ files ∧ child ∈ node.children

/-- The root leads to every file of a tree. -/
theorem Tree.reached {files : List (UInt32 × Node)} (tree : Tree files) :
    ∀ file ∈ files, Relation.ReflTransGen (Enters files) 2 file.1 := by
  have behind : ∀ rest front, front ++ rest = files →
    ∀ file ∈ rest, Relation.ReflTransGen (Enters files) 2 file.1 := by
    intro rest
    induction rest with
    | nil => exact fun _ _ => nofun
    | cons first rest ih =>
      intro front split
      have later := ih (front ++ [first]) (by rw [List.append_assoc]; exact split)
      refine List.forall_mem_cons.mpr ⟨?_, later⟩
      have bottomUp := tree.bottomUp
      rw [← split, List.append_cons, bottomUp_append, bottomUp_concat] at bottomUp
      obtain ⟨⟨before, new, _, there⟩, _⟩ := bottomUp
      obtain root | ⟨directory, member, mine⟩ :=
        tree.joined first (split ▸ List.mem_append_right _ List.mem_cons_self)
      · rw [root]
      · have further : directory ∈ rest := by
          rw [← split, List.mem_append, List.mem_cons] at member
          obtain earlier | rfl | further := member
          · exact absurd (before.children directory earlier _ mine) new
          · exact absurd (there _ mine) new
          · exact further
        exact (later directory further).tail ⟨directory.2,
          split ▸ List.mem_append_right _ (List.mem_cons_of_mem _ further), mine⟩
  exact behind files [] (List.nil_append files)

end PicoOs.Tools
