import PicoOs.Library.Directories

/-! Links in directories. Under one name a directory has itself, under another one the directory
that it is in. The links of a new directory are provisional until it gets an entry. -/

namespace PicoOs.Library.Directories

variable {Node : Type u} {Name : Type v} {directories : Directories Node Name}
  {old more : Node → Prop} {own up name : Name}
  {node target new : Node}

/-- What the name stands for in the node, if it is a directory. -/
def Named (directories : Directories Node Name) (node : Node) (name : Name)
    (target : Node) : Prop :=
  ∀ entries, directories node = some entries → entries name = some target

/-- No entry but the links names the node. -/
def Unreferenced (directories : Directories Node Name) (old : Node → Prop) (own up : Name)
    (node : Node) : Prop :=
  ∀ other entries name, old other → directories other = some entries → entries name = some node →
    name = own ∨ name = up

structure Linked (directories : Directories Node Name) (old : Node → Prop)
    (own up : Name) : Prop where
  itself : ∀ node, old node → directories.Named node own node
  upward : ∀ node entries, old node → directories node = some entries → (entries up).isSome
  back : ∀ node entries name child, old node → directories node = some entries →
    name ≠ own → name ≠ up →
    entries name = some child → directories.Named child up node

theorem Unreferenced.of_closed (closed : directories.Closed old) (outside : ¬old node) :
    directories.Unreferenced old own up node :=
  fun other entries name inside directory entry =>
    absurd (closed other entries name node inside directory entry) outside

/-- From a directory to one that it contains, and back. -/
theorem Linked.walk_back (linked : directories.Linked old own up) (closed : directories.Closed old)
    {start : Node} (inside : old start)
    {path : List Name} (reached : directories.walk start path = .ok node)
    {entries inner : Name → Option Node}
    (directory : directories node = some entries) (ordinary : name ≠ own) (downward : name ≠ up)
    (entry : entries name = some target)
    (subdirectory : directories target = some inner) :
    directories.walk start (path ++ [name, up]) = .ok node := by
  have back := linked.back node entries name target (closed.walk inside reached) directory ordinary
    downward entry inner subdirectory
  have returns : directories.walk node [name, up] = .ok node :=
    bind_ok.mpr ⟨target, enter_entry directory entry,
      bind_ok.mpr ⟨node, enter_entry subdirectory back, rfl⟩⟩
  rw [walk_append, reached]
  exact returns

section New
variable [DecidableEq Node]

structure Provisional (own up : Name) (new : Node) (entries : Name → Option Node) : Prop where
  itself : entries own = some new
  upward : entries up = some new
  nothing : ∀ name, name ≠ own → name ≠ up → entries name = none

variable {value : Option (Name → Option Node)}

theorem Named.extend (named : directories.Named node name target) (different : node ≠ new) :
    Named (Function.update directories new value) node name target := by
  intro entries there
  rw [Function.update_of_ne different] at there
  exact named entries there

theorem Unreferenced.extend (unreferenced : directories.Unreferenced old own up node)
    (outside : ¬old new)
    (within : ∀ node, more node → old node ∨ node = new)
    (right : ∀ entries, value = some entries → Provisional own up new entries) :
    Unreferenced (Function.update directories new value) more own up node := by
  intro other entries name inside directory entry
  obtain earlier | rfl := within other inside
  · rw [Function.update_of_ne fun same => outside (same.subst earlier)] at directory
    exact unreferenced other entries name earlier directory entry
  · rw [Function.update_self] at directory
    by_contra neither
    have both := not_or.mp neither
    rw [(right entries directory).nothing name both.1 both.2] at entry
    cases entry

theorem Linked.extend (linked : directories.Linked old own up) (closed : directories.Closed old)
    (outside : ¬old new)
    (within : ∀ node, more node → old node ∨ node = new)
    (right : ∀ entries, value = some entries → Provisional own up new entries) :
    Linked (Function.update directories new value) more own up := by
  have apart {node : Node} (inside : old node) : node ≠ new :=
    fun same => outside (same.subst inside)
  constructor
  · intro node inside
    obtain earlier | rfl := within node inside
    · exact (linked.itself node earlier).extend (apart earlier)
    · intro entries directory
      rw [Function.update_self] at directory
      exact (right entries directory).itself
  · intro node entries inside directory
    obtain earlier | rfl := within node inside
    · rw [Function.update_of_ne (apart earlier)] at directory
      exact linked.upward node entries earlier directory
    · rw [Function.update_self] at directory
      exact Option.isSome_of_eq_some (right entries directory).upward
  · intro node entries name child inside directory ordinary downward entry
    obtain earlier | rfl := within node inside
    · rw [Function.update_of_ne (apart earlier)] at directory
      have existing := closed node entries name child earlier directory entry
      exact (linked.back node entries name child earlier directory ordinary downward entry).extend
        (apart existing)
    · rw [Function.update_self] at directory
      rw [(right entries directory).nothing name ordinary downward] at entry
      cases entry

end New

section Set
variable [DecidableEq Node] [DecidableEq Name] {directory other : Node} {key : Name}

def set (directories : Directories Node Name) (node : Node) (name : Name) (target : Node) :
    Directories Node Name :=
  Function.update directories node ((directories node).map fun entries => Function.update entries name (some target))

theorem set_update (value : Option (Name → Option Node)) :
    set (Function.update directories node value) node name target =
    Function.update directories node (value.map fun entries => Function.update entries name (some target)) := by
  rw [set, Function.update_self, Function.update_idem]

theorem set_some {entries : Name → Option Node}
    (there : directories.set node name target other = some entries) :
    ∃ before, directories other = some before ∧ ∀ key, entries key = if other = node ∧ key = name then some target else before key := by
  by_cases same : other = node
  · subst same
    rw [set, Function.update_self] at there
    obtain ⟨before, present, rfl⟩ := Option.map_eq_some_iff.mp there
    refine ⟨before, present, fun key => ?_⟩
    rw [Function.update_apply]
    simp only [true_and]
  · rw [set, Function.update_of_ne same] at there
    exact ⟨entries, there, fun key => (if_neg fun both => same both.1).symm⟩

theorem set_named (directories : Directories Node Name) (node : Node) (name : Name)
    (target : Node) :
    (directories.set node name target).Named node name target := by
  intro entries there
  obtain ⟨before, _, values⟩ := set_some there
  rw [values, if_pos ⟨rfl, rfl⟩]

theorem Named.set {found : Node} (named : directories.Named other key found)
    (apart : other = node → key ≠ name) :
    (directories.set node name target).Named other key found := by
  intro entries there
  obtain ⟨before, present, values⟩ := set_some there
  rw [values, if_neg fun both => apart both.1 both.2]
  exact named before present

theorem Unreferenced.set (unreferenced : directories.Unreferenced old own up node)
    (apart : target ≠ node ∨ name = own ∨ name = up) :
    (directories.set directory name target).Unreferenced old own up node := by
  intro other entries key inside there entry
  obtain ⟨before, present, values⟩ := set_some there
  rw [values] at entry
  split at entry
  next here =>
    obtain different | link := apart
    · exact absurd (Option.some.inj entry) different
    · exact here.2 ▸ link
  next => exact unreferenced other before key inside present entry

theorem Linked.set_upward (linked : directories.Linked old own up) {entries : Name → Option Node}
    (inside : old other)
    (there : directories.set node name target other = some entries) : (entries up).isSome := by
  obtain ⟨before, present, values⟩ := set_some there
  rw [values]
  split
  next => rfl
  next => exact linked.upward other before inside present

/-- A file, or a directory whose link is right already, gets an entry. -/
theorem Linked.set (linked : directories.Linked old own up) (ordinary : name ≠ own)
    (downward : name ≠ up)
    (child : directories.Named target up node) :
    (directories.set node name target).Linked old own up := by
  refine ⟨fun other inside => (linked.itself other inside).set fun _ => ordinary.symm,
    fun other entries inside there => linked.set_upward inside there, ?_⟩
  intro other entries key found inside there itself upward entry
  obtain ⟨before, present, values⟩ := set_some there
  rw [values] at entry
  split at entry
  next here =>
    obtain ⟨rfl, _⟩ := here
    obtain rfl := Option.some.inj entry
    exact child.set fun _ => downward.symm
  next =>
    exact (linked.back other before key found inside present itself upward entry).set
      fun _ => downward.symm

theorem Linked.setOwn (linked : directories.Linked old own up) (different : own ≠ up) :
    (directories.set node own node).Linked old own up := by
  refine ⟨fun other inside => ?_,
    fun other entries inside there => linked.set_upward inside there, ?_⟩
  · by_cases same : other = node
    · exact same ▸ directories.set_named node own node
    · exact (linked.itself other inside).set fun here => absurd here same
  · intro other entries key found inside there itself upward entry
    obtain ⟨before, present, values⟩ := set_some there
    rw [values, if_neg fun both => itself both.2] at entry
    exact (linked.back other before key found inside present itself upward entry).set
      fun _ => different.symm

/-- The link of a directory that no entry names yet. -/
theorem Linked.setUp (linked : directories.Linked old own up) (different : own ≠ up)
    (unreferenced : directories.Unreferenced old own up node) :
    (directories.set node up target).Linked old own up := by
  refine ⟨fun other inside => (linked.itself other inside).set fun _ => different,
    fun other entries inside there => linked.set_upward inside there, ?_⟩
  intro other entries key found inside there itself upward entry
  obtain ⟨before, present, values⟩ := set_some there
  rw [values, if_neg fun both => upward both.2] at entry
  refine (linked.back other before key found inside present itself upward entry).set fun here => ?_
  obtain link | link := unreferenced other before key inside present (here ▸ entry)
  · exact absurd link itself
  · exact absurd link upward

end Set
end PicoOs.Library.Directories
