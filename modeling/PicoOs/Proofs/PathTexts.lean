import PicoOs.Std.Path

/-! Paths and their texts. The constructor takes a slash for the end of a component, `string`
puts one between two components, so they disagree about a component without a name at the end. -/

namespace PicoOs.Std.Path
/-- The paths that are made from non-empty strings with `parent` and `operator/`. -/
inductive Obtainable : Path → Prop where
  | construct {text : ImmutableString} {path : Path}
      (constructed : Path.construct text = .ok path) : Obtainable path
  | parent {path up : Path} (obtained : Obtainable path) (parented : path.parent = .ok up) :
      Obtainable up
  | append {path rhs joined : Path} (obtained : Obtainable path) (right : Obtainable rhs)
      (appended : path.append rhs = .ok joined) : Obtainable joined

variable {path rhs up joined : Path} {text component : ImmutableString}
  {components : List ImmutableString}

/-- What the constructor keeps of the pieces between slashes: no piece behind a last slash. -/
def trimmed (pieces : List ImmutableString) : List ImmutableString := if pieces.getLast? = some [] then pieces.dropLast else pieces

private theorem trimmed_cons (component : ImmutableString) (nonempty : components ≠ []) :
    trimmed (component :: components) = component :: trimmed components := by
  rw [trimmed, trimmed, List.getLast?_cons_of_ne_nil nonempty,
    List.dropLast_cons_of_ne_nil nonempty]
  split <;> rfl

private theorem trimmed_mem (member : component ∈ trimmed components) : component ∈ components := by
  rw [trimmed] at member
  split at member
  next => exact List.mem_of_mem_dropLast member
  next => exact member

private theorem trimmed_iff : trimmed components = components ↔ components.getLast? ≠ some [] := by
  rw [trimmed]
  constructor
  · intro same last
    rw [if_pos last] at same
    have shorter := congrArg List.length same
    have nonempty := List.length_pos_of_mem (List.mem_of_getLast? last)
    rw [List.length_dropLast] at shorter
    omega
  · exact fun last => if_neg last

private theorem consumeComponents_nil (fuel : Nat) : consumeComponents fuel [] = [] := by
  cases fuel <;> rfl

private theorem consumeComponents_slash (fuel : Nat) (free : slash ∉ component)
    (more : List UInt8) :
    consumeComponents (fuel + 1) (component ++ slash :: more) =
      component :: consumeComponents fuel more := by
  have all : ∀ byte ∈ component, decide (byte ≠ slash) = true :=
    fun byte member => decide_eq_true fun same => free (same ▸ member)
  rw [consumeComponents, List.takeWhile_append_of_pos all, List.dropWhile_append_of_pos all,
    List.takeWhile_cons_of_neg (by simp),
    List.dropWhile_cons_of_neg (by simp), List.append_nil, List.drop_one, List.tail_cons]
  exact fun empty => List.append_ne_nil_of_right_ne_nil _ (List.cons_ne_nil _ _) empty

private theorem consumeComponents_end (fuel : Nat) (free : slash ∉ component)
    (nonempty : component ≠ []) :
    consumeComponents (fuel + 1) component = [component] := by
  have all : ∀ byte ∈ component, decide (byte ≠ slash) = true :=
    fun byte member => decide_eq_true fun same => free (same ▸ member)
  rw [consumeComponents, List.takeWhile_eq_self_iff.mpr all, List.dropWhile_eq_nil_iff.mpr all,
    List.drop_nil, consumeComponents_nil]
  exact nonempty

theorem consumeComponents_eq (fuel : Nat) (input : List UInt8) (enough : input.length ≤ fuel) :
    consumeComponents fuel input = trimmed (input.splitOn slash) := by
  induction fuel generalizing input with
  | zero =>
    obtain rfl := List.eq_nil_of_length_eq_zero (Nat.le_zero.mp enough)
    rfl
  | succ fuel ih =>
    by_cases present : slash ∈ input
    · obtain ⟨component, more, rfl, free⟩ := List.eq_append_cons_of_mem present
      have shorter : more.length ≤ fuel := by
        rw [List.length_append, List.length_cons] at enough
        omega
      rw [consumeComponents_slash fuel free, ih more shorter,
        List.splitOn_append_cons_self_of_not_mem free,
        trimmed_cons component (List.splitOn_ne_nil slash more)]
    · rw [List.splitOn_eq_singleton present]
      by_cases empty : input = []
      · subst empty
        rfl
      · rw [consumeComponents_end fuel present empty, trimmed, List.getLast?_singleton,
          if_neg fun last => empty (Option.some.inj last)]

private theorem splitOn_free (text : ImmutableString) :
    ∀ component ∈ text.splitOn slash, slash ∉ component := by
  obtain ⟨length, bound⟩ : ∃ length, text.length ≤ length := ⟨_, Nat.le_refl _⟩
  induction length generalizing text with
  | zero =>
    obtain rfl := List.eq_nil_of_length_eq_zero (Nat.le_zero.mp bound)
    simp
  | succ length ih =>
    by_cases present : slash ∈ text
    · obtain ⟨component, more, rfl, free⟩ := List.eq_append_cons_of_mem present
      rw [List.length_append, List.length_cons] at bound
      rw [List.splitOn_append_cons_self_of_not_mem free, List.forall_mem_cons]
      exact ⟨free, ih more (by omega)⟩
    · rw [List.splitOn_eq_singleton present, List.forall_mem_singleton]
      exact present

private theorem joinComponents_cons (putSlash : Bool) (component : ImmutableString)
    (components : List ImmutableString) :
    joinComponents putSlash (component :: components) =
      (if putSlash then [slash] else []) ++ [slash].intercalate (component :: components) := by
  induction components generalizing putSlash component with
  | nil => rw [joinComponents, joinComponents, List.append_nil, List.intercalate_singleton]
  | cons next rest ih =>
    rw [joinComponents, ih true next, if_pos rfl, List.intercalate_cons_cons, List.append_assoc,
      List.append_assoc]

theorem string_eq (path : Path) : path.string = (if path.isAbsolute then [slash] else []) ++ [slash].intercalate path.components := by
  obtain ⟨isAbsolute, components⟩ := path
  cases components with
  | nil => cases isAbsolute <;> rfl
  | cons component rest =>
    rw [string, if_neg fun empty => absurd empty.2 (Nat.succ_ne_zero _), joinComponents_cons]

theorem construct_slash (text : ImmutableString) :
    construct (slash :: text) = .ok ⟨true, trimmed (text.splitOn slash)⟩ := by
  rw [← consumeComponents_eq text.length text (Nat.le_refl _)]
  rfl

theorem construct_other {byte : UInt8} (other : byte ≠ slash) (text : ImmutableString) :
    construct (byte :: text) = .ok ⟨false, trimmed ((byte :: text).splitOn slash)⟩ := by
  have relative : ¬(byte :: text).head? = some slash := fun first => other (Option.some.inj first)
  rw [← consumeComponents_eq (byte :: text).length _ (Nat.le_refl _), construct, if_neg (by simp)]
  simp only [relative, decide_false, if_false]

structure Shaped (path : Path) : Prop where
  free : ∀ component ∈ path.components, slash ∉ component
  relative : path.isAbsolute = false → path.components.head? ≠ some []

theorem dropLast_head (first : components.dropLast.head? = some component) :
    components.head? = some component := by
  rw [List.head?_dropLast] at first
  split at first
  next => exact first
  next => cases first

private theorem trimmed_head (first : (trimmed components).head? = some component) :
    components.head? = some component := by
  rw [trimmed] at first
  split at first
  next => exact dropLast_head first
  next => exact first

/-- Where a text does not begin with a slash, its first piece is not empty. -/
theorem splitOn_head {byte : UInt8} (other : byte ≠ slash) (text : ImmutableString) :
    ((byte :: text).splitOn slash).head? ≠ some [] := by
  intro first
  have whole : [slash].intercalate ((byte :: text).splitOn slash) = byte :: text :=
    List.intercalate_splitOn slash
  obtain ⟨rest, pieces⟩ := List.head?_eq_some_iff.mp first
  rw [pieces] at whole
  cases rest with
  | nil => cases whole
  | cons next rest =>
    rw [List.intercalate_cons_cons] at whole
    exact other (List.cons.inj whole).1.symm

private theorem Shaped.construct (constructed : Path.construct text = .ok path) : path.Shaped := by
  cases text with
  | nil => cases constructed
  | cons byte text =>
    by_cases begins : byte = slash
    · subst begins
      rw [construct_slash] at constructed
      obtain rfl := Except.ok.inj constructed
      exact ⟨fun component member => splitOn_free text component (trimmed_mem member), nofun⟩
    · rw [construct_other begins] at constructed
      obtain rfl := Except.ok.inj constructed
      exact ⟨fun component member => splitOn_free _ component (trimmed_mem member),
        fun _ first => splitOn_head begins text (trimmed_head first)⟩

private theorem Shaped.parent (shaped : path.Shaped) (parented : path.parent = .ok up) :
    up.Shaped := by
  rw [Path.parent] at parented
  split at parented
  next =>
    obtain rfl := Except.ok.inj parented
    exact ⟨fun component member => shaped.free component (List.mem_of_mem_dropLast member),
      fun relative first => shaped.relative relative (dropLast_head first)⟩
  next => cases parented

private theorem Shaped.append (shaped : path.Shaped) (right : rhs.Shaped)
    (appended : path.append rhs = .ok joined) : joined.Shaped := by
  rw [Path.append] at appended
  split at appended
  next => cases appended
  next relative =>
    obtain rfl := Except.ok.inj appended
    refine ⟨List.forall_mem_append.mpr ⟨shaped.free, right.free⟩, fun own first => ?_⟩
    rw [List.head?_append] at first
    cases found : path.components.head? with
    | none =>
      rw [found] at first
      exact right.relative (Bool.eq_false_iff.mpr relative) first
    | some component =>
      rw [found] at first
      exact shaped.relative own (found.trans first)

private theorem Obtainable.shaped (obtained : Obtainable path) : path.Shaped := by
  induction obtained with
  | construct constructed => exact .construct constructed
  | parent _ parented shaped => exact shaped.parent parented
  | append _ _ appended shaped right => exact shaped.append right appended

private theorem Shaped.string_nil (shaped : path.Shaped) (empty : path.string = []) :
    path.components = [] := by
  rw [string_eq] at empty
  obtain ⟨first, joined⟩ := List.append_eq_nil_iff.mp empty
  have relative : path.isAbsolute = false := by
    cases absolute : path.isAbsolute with
    | false => rfl
    | true =>
      rw [absolute] at first
      cases first
  cases pieces : path.components with
  | nil => rfl
  | cons component rest =>
    rw [pieces] at joined
    have unnamed : component = [] := by
      cases rest with
      | nil => rwa [List.intercalate_singleton] at joined
      | cons next rest =>
        rw [List.intercalate_cons_cons, List.append_assoc] at joined
        exact (List.append_eq_nil_iff.mp joined).1
    have named := shaped.relative relative
    rw [pieces, unnamed] at named
    exact absurd rfl named

private theorem Shaped.construct_string (shaped : path.Shaped) (nonempty : path.string ≠ []) :
    Path.construct path.string = .ok ⟨path.isAbsolute, trimmed path.components⟩ := by
  obtain ⟨isAbsolute, components⟩ := path
  have pieces (named : components ≠ []) : ([slash].intercalate components).splitOn
    slash = components :=
    List.splitOn_intercalate slash shaped.free named
  rw [string_eq] at nonempty ⊢
  cases isAbsolute with
  | true =>
    refine (Path.construct_slash ([slash].intercalate components)).trans ?_
    cases components with
    | nil => rfl
    | cons component rest => rw [pieces (List.cons_ne_nil _ _)]
  | false =>
    cases components with
    | nil => exact absurd rfl nonempty
    | cons component rest =>
      have first : component ≠ [] := fun empty => shaped.relative rfl (congrArg some empty)
      obtain ⟨byte, bytes, rfl⟩ := List.exists_cons_of_ne_nil first
      have other : byte ≠ slash :=
        fun same => shaped.free _ List.mem_cons_self (same ▸ List.mem_cons_self)
      have text : [slash].intercalate ((byte :: bytes) :: rest) =
        byte :: [slash].intercalate (bytes :: rest) :=
        List.intercalate_cons_cons_left
      have whole := pieces (List.cons_ne_nil _ _)
      rw [text] at whole
      show Path.construct ([slash].intercalate ((byte :: bytes) :: rest)) = _
      rw [text, Path.construct_other other, whole]

/-- A path is read back from its text as it was if and only if its last component has a name. -/
theorem construct_string_iff (obtained : Obtainable path) :
    (path.string ≠ [] → Path.construct path.string = .ok path) ↔
    path.components.getLast? ≠ some [] := by
  have shaped := obtained.shaped
  by_cases empty : path.string = []
  · rw [shaped.string_nil empty]
    exact ⟨fun _ => nofun, fun _ nonempty => absurd empty nonempty⟩
  · rw [shaped.construct_string empty, ← trimmed_iff]
    constructor
    · exact fun same => congrArg Path.components (Except.ok.inj (same empty))
    · intro same _
      rw [same]

/-- The path `"//"` has a component without a name, and its text is that of the root. -/
theorem construct_string_iff_slashes : Path.construct [slash, slash] = .ok ⟨true, [[]]⟩ ∧
    (((⟨true, [[]]⟩ : Path).string ≠ [] → Path.construct (⟨true, [[]]⟩ : Path).string =
      .ok ⟨true, [[]]⟩) ↔
      (⟨true, [[]]⟩ : Path).components.getLast? ≠ some []) := by
  have constructed : Path.construct [slash, slash] = .ok ⟨true, [[]]⟩ := rfl
  exact ⟨constructed, construct_string_iff (.construct constructed)⟩

/-- So another path is read back. -/
theorem slashes_lost : ∃ path, Obtainable path ∧ path.string = [slash] ∧
    Path.construct path.string = .ok .root ∧
    ¬(path.string ≠ [] → Path.construct path.string = .ok path) := by
  have constructed : Path.construct [slash, slash] = .ok ⟨true, [[]]⟩ := rfl
  refine ⟨⟨true, [[]]⟩, .construct constructed, rfl, rfl, fun same => ?_⟩
  cases same nofun

end PicoOs.Std.Path
