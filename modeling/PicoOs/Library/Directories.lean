import PicoOs.Library.Outcome

/-! Walks through nested directories. A node that is a directory has entries, each of which
names a node; nothing is said about the shape of the whole. -/

namespace PicoOs.Library

/-- Why a walk stops before the end of its path. -/
inductive Stop where
  | notDirectory
  | missing
  deriving DecidableEq

abbrev Directories (Node : Type u) (Name : Type v) := Node → Option (Name → Option Node)

namespace Directories
variable {Node : Type u} {Other : Type w} {Name : Type v}
  {directories before after : Directories Node Name} {node target : Node}

def enter (directories : Directories Node Name) (node : Node) (name : Name) : Except Stop Node :=
  match directories node with
  | none => .error .notDirectory
  | some entries =>
    match entries name with
    | none => .error .missing
    | some next => .ok next

def walk (directories : Directories Node Name) (node : Node) (path : List Name) :
    Except Stop Node :=
  path.foldlM directories.enter node

theorem walk_cons (name : Name) (path : List Name) :
    directories.walk node (name :: path) = directories.enter node name >>=
      fun next => directories.walk next path :=
  List.foldlM_cons

theorem walk_append (first last : List Name) :
    directories.walk node (first ++ last) = directories.walk node first >>=
      fun middle => directories.walk middle last :=
  List.foldlM_append

theorem walk_concat {path : List Name} {name : Name} {parent : Node}
    (reached : directories.walk node path = .ok parent) :
    directories.walk node (path ++ [name]) = directories.enter parent name := by
  rw [walk_append, reached]
  exact bind_pure (directories.enter parent name)

theorem enter_ok {name : Name} (entered : directories.enter node name = .ok target) :
    ∃ entries, directories node = some entries ∧ entries name = some target := by
  unfold enter at entered
  split at entered
  next => cases entered
  next entries directory =>
    split at entered
    next => cases entered
    next next entry => exact ⟨entries, directory, by rw [entry, Except.ok.inj entered]⟩

theorem enter_entry {name : Name} {entries : Name → Option Node}
    (directory : directories node = some entries)
    (entry : entries name = some target) : directories.enter node name = .ok target := by
  simp only [enter, directory, entry]

theorem enter_missing {name : Name} (stopped : directories.enter node name = .error .missing) :
    ∃ entries, directories node = some entries ∧ entries name = none := by
  unfold enter at stopped
  split at stopped
  next => cases stopped
  next entries directory =>
    split at stopped
    next entry => exact ⟨entries, directory, entry⟩
    next => cases stopped

/-- When the last name of a path is all that is missing, the directory before it lacks the name. -/
theorem walk_missing {path : List Name} {name : Name} {parent : Node}
    (reached : directories.walk node path = .ok parent)
    (stopped : directories.walk node (path ++ [name]) = .error .missing) :
    ∃ entries, directories parent = some entries ∧ entries name = none :=
  enter_missing (walk_concat reached ▸ stopped)

theorem enter_notDirectory {name : Name} :
    directories.enter node name = .error .notDirectory ↔ directories node = none := by
  unfold enter
  split
  next plain => exact iff_of_true rfl plain
  next entries directory =>
    rw [directory]
    split <;> exact iff_of_false (fun same => by cases same) (fun same => by cases same)

/-- A walk stops for the reason for which it cannot enter the next name of its path. -/
theorem walk_error {path : List Name} {stop : Stop} :
    directories.walk node path = .error stop ↔
      ∃ before name after middle, path = before ++ name :: after ∧
      directories.walk node before = .ok middle ∧
        directories.enter middle name = .error stop := by
  induction path generalizing node with
  | nil =>
    refine iff_of_false (fun same => by cases same) ?_
    rintro ⟨before, name, after, middle, split, -⟩
    exact List.append_ne_nil_of_right_ne_nil before (List.cons_ne_nil name after) split.symm
  | cons first path ih =>
    constructor
    · intro stopped
      rw [walk_cons] at stopped
      cases entered : directories.enter node first with
      | error reason =>
        rw [entered] at stopped
        exact ⟨[], first, path, node, rfl, rfl, by rw [entered, Except.error.inj stopped]⟩
      | ok next =>
        rw [entered] at stopped
        obtain ⟨before, name, after, middle, split, reached, stops⟩ := ih.mp stopped
        exact ⟨first :: before, name, after, middle, congrArg (first :: ·) split,
          bind_ok.mpr ⟨next, entered, reached⟩, stops⟩
    · rintro ⟨before, name, after, middle, split, reached, stops⟩
      rw [split, walk_append, reached]
      change directories.walk middle (name :: after) = _
      rw [walk_cons, stops]
      rfl

/-- A set of nodes that the entries of its directories do not leave. -/
def Closed (directories : Directories Node Name) (old : Node → Prop) : Prop :=
  ∀ node entries name target, old node → directories node = some entries →
    entries name = some target → old target

theorem Closed.walk {old : Node → Prop} {path : List Name} (closed : directories.Closed old)
    (inside : old node)
    (reached : directories.walk node path = .ok target) : old target := by
  induction path generalizing node with
  | nil => exact Except.ok.inj reached ▸ inside
  | cons name path ih =>
    obtain ⟨middle, entered, rest⟩ := bind_ok.mp reached
    obtain ⟨entries, directory, entry⟩ := enter_ok entered
    exact ih (closed node entries name middle inside directory entry) rest

/-- What is entered in the first directories by an allowed name is entered in the others. -/
def Simulates (allowed : Name → Prop) (related : Node → Other → Prop)
    (directories : Directories Node Name) (others : Directories Other Name) : Prop :=
  ∀ node other name target, allowed name → related node other →
    directories.enter node name = .ok target →
    ∃ found, others.enter other name = .ok found ∧ related target found

theorem Simulates.walk {allowed : Name → Prop} {related : Node → Other → Prop}
    {others : Directories Other Name} {other : Other} {path : List Name}
    (simulates : Simulates allowed related directories others) (names : ∀ name ∈ path, allowed name)
    (same : related node other)
    (reached : directories.walk node path = .ok target) :
    ∃ found, others.walk other path = .ok found ∧ related target found := by
  induction path generalizing node other with
  | nil => exact ⟨other, rfl, Except.ok.inj reached ▸ same⟩
  | cons name path ih =>
    obtain ⟨first, later⟩ := List.forall_mem_cons.mp names
    obtain ⟨middle, entered, rest⟩ := bind_ok.mp reached
    obtain ⟨next, otherEntered, further⟩ := simulates node other name middle first same entered
    obtain ⟨found, walked, last⟩ := ih later further rest
    exact ⟨found, bind_ok.mpr ⟨next, otherEntered, walked⟩, last⟩

/-- The directories of the set have stayed directories, and their entries name the same nodes. -/
def Extends (old : Node → Prop) (before after : Directories Node Name) : Prop :=
  ∀ node entries, old node → before node = some entries →
    ∃ more, after node = some more ∧ ∀ name target, entries name = some target →
      more name = some target

/-- What a path leads to never changes while directories are only extended. -/
theorem Extends.walk {old : Node → Prop} {path : List Name} (extended : Extends old before after)
    (closed : before.Closed old)
    (inside : old node) (reached : before.walk node path = .ok target) :
    after.walk node path = .ok target := by
  induction path generalizing node with
  | nil => exact reached
  | cons name path ih =>
    obtain ⟨middle, entered, rest⟩ := bind_ok.mp reached
    obtain ⟨entries, directory, entry⟩ := enter_ok entered
    obtain ⟨more, still, kept⟩ := extended node entries inside directory
    have later : after.walk middle path = .ok target :=
      ih (closed node entries name middle inside directory entry) rest
    exact bind_ok.mpr ⟨middle, enter_entry still (kept name middle entry), later⟩

end Directories
end PicoOs.Library
