import PicoOs.Proofs.FileBoot

/-! Looking paths up, one name after the other. The two loops walk alike, and a walk along a
path that is put together is the walk along its parts. -/

namespace PicoOs.Kernel
open Library PicoOs.Std

namespace FileSystem
variable {fs : FileSystem} {file target : FileRef}

private theorem directories_none : fs.directories file = none ↔ (fs.files file).entries = none :=
  Option.map_eq_none_iff

private theorem enter_missing {name : ImmutableString} :
    fs.directories.enter file name = .error .missing ↔
      ∃ entries, (fs.files file).entries = some entries ∧ entries.getOpt name = none := by
  constructor
  · intro stopped
    obtain ⟨find, directory, absent⟩ := Directories.enter_missing stopped
    obtain ⟨entries, isDirectory, rfl⟩ := Option.map_eq_some_iff.mp directory
    exact ⟨entries, isDirectory, absent⟩
  · rintro ⟨entries, directory, absent⟩
    simp only [Directories.enter, directories_some directory, absent]

theorem enter_some {name : ImmutableString} :
    fs.directories.enter file name = .ok target ↔
      ∃ entries, (fs.files file).entries = some entries ∧ entries.getOpt name = some target := by
  constructor
  · intro entered
    obtain ⟨find, directory, present⟩ := Directories.enter_ok entered
    obtain ⟨entries, isDirectory, rfl⟩ := Option.map_eq_some_iff.mp directory
    exact ⟨entries, isDirectory, present⟩
  · rintro ⟨entries, directory, present⟩
    exact Directories.enter_entry (directories_some directory) present

private theorem tryLookupFrom_error {components : List ImmutableString} {stop : Stop} :
    fs.tryLookupFrom file components = .error (errno stop) ↔
    fs.directories.walk file components = .error stop := by
  rw [tryLookupFrom_walk]
  cases fs.directories.walk file components with
  | ok _ => simp [Except.mapError]
  | error other => cases other <;> cases stop <;> simp [Except.mapError, errno]

private theorem tryLookupFrom_append (first last : List ImmutableString) :
    fs.tryLookupFrom file (first ++ last) = fs.tryLookupFrom file first >>=
      fun middle => fs.tryLookupFrom middle last := by
  simp only [tryLookupFrom_walk, Directories.walk_append]
  cases fs.directories.walk file first <;> rfl

private theorem lookupFrom_walk (components : List ImmutableString) :
    fs.lookupFrom file components = .ok target ↔
    fs.directories.walk file components = .ok target := by
  refine ⟨lookupFrom_ok, ?_⟩
  induction components generalizing file with
  | nil => exact fun reached => congrArg Except.ok (Except.ok.inj reached)
  | cons component components ih =>
    intro reached
    obtain ⟨next, entered, rest⟩ := bind_ok.mp reached
    obtain ⟨entries, directory, present⟩ := enter_some.mp entered
    simp only [lookupFrom, directory, present]
    exact ih rest

/-- The errors of `try_lookup` for a prefix of the path that does not lead on. -/
theorem tryLookup_error {path : Path} (absolute : path.isAbsolute) {stop : Stop} :
    fs.tryLookup path = .ok (.error (errno stop)) ↔
    ∃ before name after middle, path.components = before ++ name :: after ∧
      fs.tryLookup ⟨true, before⟩ = .ok (.ok middle) ∧
      fs.directories.enter middle name = .error stop := by
  simp only [tryLookup_ok, absolute, true_and, tryLookupFrom_error, tryLookupFrom_ok,
    Directories.walk_error]

/-- What is looked up by an absolute path, and by the parts it is put together of. -/
structure ResolvesPaths (fs : FileSystem) : Prop where
  composes : ∀ path rhs : Path, path.isAbsolute → ¬rhs.isAbsolute →
    ∃ joined found, path.append rhs = .ok joined ∧
    fs.tryLookup path = .ok found ∧
    fs.tryLookup joined = .ok (found >>= fun file => fs.tryLookupFrom file rhs.components)
  enters : ∀ path : Path, path.isAbsolute → path ≠ .root →
    ∃ parent name, path.parent = .ok parent ∧ path.filename = .ok name ∧
    ∀ file, fs.tryLookup path = .ok (.ok file) ↔
      ∃ directory entries, fs.tryLookup parent = .ok (.ok directory) ∧
      (fs.files directory).entries = some entries ∧ entries.getOpt name = some file
  notDirectory : ∀ path : Path, path.isAbsolute → (fs.tryLookup path = .ok (.error .ENOTDIR) ↔
    ∃ before name after file, path.components = before ++ name :: after ∧
      fs.tryLookup ⟨true, before⟩ = .ok (.ok file) ∧
      (fs.files file).entries = none)
  missing : ∀ path : Path, path.isAbsolute → (fs.tryLookup path = .ok (.error .ENOENT) ↔
    ∃ before name after directory entries, path.components = before ++ name :: after ∧
      fs.tryLookup ⟨true, before⟩ = .ok (.ok directory) ∧
        (fs.files directory).entries = some entries ∧
      entries.getOpt name = none)
  errors : ∀ (path : Path) error, fs.tryLookup path = .ok (.error error) →
    error = .ENOTDIR ∨ error = .ENOENT
  lookups : ∀ (path : Path) file, path.isAbsolute →
    (fs.lookup path = .ok file ↔ fs.tryLookup path = .ok (.ok file))

theorem path_lookups (fs : FileSystem) : fs.ResolvesPaths where
  composes path rhs absolute relative := by
    refine ⟨{ path with components := path.components ++ rhs.components }, _, ?_,
      tryLookup_absolute absolute, ?_⟩
    · rw [Path.append, if_neg relative]
    · rw [← tryLookupFrom_append]
      exact tryLookup_absolute absolute
  enters path absolute proper := by
    obtain ⟨isAbsolute, components⟩ := path
    obtain rfl : isAbsolute = true := absolute
    obtain rfl | ⟨before, name, rfl⟩ := List.eq_nil_or_concat components
    · exact absurd rfl proper
    refine ⟨⟨true, before⟩, name, ?_, ?_, fun file => ?_⟩
    · simp [Path.parent]
    · simp [Path.filename]
    · simp only [tryLookup_ok, true_and, tryLookupFrom_ok, ← enter_some, exists_and_left]
      rw [List.concat_eq_append, Directories.walk_append, bind_ok]
      refine exists_congr fun directory => and_congr_right fun reached => ?_
      rw [Directories.walk_cons,
        show (fun next => fs.directories.walk next []) = pure from rfl, bind_pure]
  notDirectory path absolute := by
    refine (@tryLookup_error fs path absolute .notDirectory).trans ?_
    simp only [Directories.enter_notDirectory, directories_none]
  missing path absolute := by
    refine (@tryLookup_error fs path absolute .missing).trans ?_
    simp only [enter_missing, exists_and_left]
  errors path error failed := by
    obtain ⟨-, stopped⟩ := tryLookup_ok.mp failed
    rw [tryLookupFrom_walk] at stopped
    cases walked : fs.directories.walk fs.root path.components with
    | ok file =>
      rw [walked] at stopped
      cases stopped
    | error stop =>
      rw [walked] at stopped
      obtain rfl := Except.error.inj stopped
      cases stop with
      | notDirectory => exact Or.inl rfl
      | missing => exact Or.inr rfl
  lookups path file absolute := by
    rw [tryLookup_ok, lookup, require_bind_ok, lookupFrom_walk, tryLookupFrom_ok]

end FileSystem
end PicoOs.Kernel
