import PicoOs.Proofs.HashMaps

/-! A `HashMap` as the list of its pairs: what is set is found again, nothing else changes,
and the trees of `HashMaps` hold exactly such a list. -/

namespace PicoOs.Std
open Library

instance : HashKey.Lawful Int := ⟨int_trans, int_equal⟩
instance : HashKey.Lawful ImmutableString := ⟨string_trans, string_equal⟩
instance : HashKey.Lawful Nat :=
  ⟨inferInstanceAs (Std.TransOrd Nat), inferInstanceAs (Std.LawfulEqOrd Nat)⟩

variable {Key Value : Type} [HashKey Key]

namespace HashKey

private theorem order_less (first second : Key) (value other : Option Value) :
    (HashKey.order Key).less first second = (HashMaps.order Key Value).less
      (HashMaps.node first value) (HashMaps.node second other) :=
  rfl

private theorem order_greater (first second : Key) (value other : Option Value) :
    (HashKey.order Key).greater first second =
      (HashMaps.order Key Value).greater (HashMaps.node first value) (HashMaps.node second other) :=
    rfl

variable [Lawful Key]

theorem equivalent_iff {first second : Key} :
    (HashKey.order Key).equivalent first second ↔ first = second :=
  @HashMaps.node_equivalent Key Unit _ _ first second none none

private theorem not_equivalent {first second : Key} (different : first ≠ second) :
    (HashKey.order Key).equivalent first second = false :=
  Bool.eq_false_iff.mpr fun same => different (equivalent_iff.mp same)

end HashKey

namespace HashMap
variable [HashKey.Lawful Key] {map : HashMap Key Value} {key other : Key} {value found : Value}

/-- A pair is put in front of the first larger one, or in the place of the one with its key. -/
theorem find_insert (key : Key) (value : Value) (entries : List (Key × Value)) (other : Key) :
    (insert key value entries).find? (fun entry => (HashKey.order Key).equivalent other entry.1) =
      if (HashKey.order Key).equivalent other key then some (key, value)
      else entries.find? fun entry => (HashKey.order Key).equivalent other entry.1 := by
  induction entries with
  | nil => simp only [insert, List.find?_cons, List.find?_nil]; split <;> simp_all
  | cons entry rest ih =>
    unfold insert
    split
    next =>
      rw [List.find?_cons]
      split
      next near => rw [if_pos near]
      next far => rw [if_neg (Bool.eq_false_iff.mp far)]
    next notLess =>
      split
      next greater =>
        have apart : entry.1 ≠ key := by
          rintro rfl
          have same : (HashKey.order Key).equivalent entry.1 entry.1 :=
            HashKey.equivalent_iff.mpr rfl
          simp [Comparison.equivalent, greater] at same
        rw [List.find?_cons, ih, List.find?_cons]
        split
        next near =>
          have same : other = entry.1 := HashKey.equivalent_iff.mp near
          rw [if_neg]
          exact fun equal => apart (same ▸ HashKey.equivalent_iff.mp equal)
        next => rfl
      next notGreater =>
        have same : key = entry.1 :=
          HashKey.equivalent_iff.mp (by simp [Comparison.equivalent, notLess, notGreater])
        rw [List.find?_cons, List.find?_cons, ← same]
        split
        next near => rw [if_pos near]
        next far =>
          have apart : (HashKey.order Key).equivalent other key = false := far
          rw [if_neg (Bool.eq_false_iff.mp apart), apart]

@[simp] theorem getOpt_set_same (map : HashMap Key Value) (key : Key) (value : Value) :
    (map.set key value).getOpt key = some value := by
  rw [getOpt, set, find_insert, if_pos (HashKey.equivalent_iff.mpr rfl)]
  rfl

theorem getOpt_set_other (map : HashMap Key Value) (value : Value) (different : other ≠ key) :
    (map.set key value).getOpt other = map.getOpt other := by
  rw [getOpt, set, find_insert, if_neg (Bool.eq_false_iff.mp (HashKey.not_equivalent different))]
  rfl

theorem getOpt_set [DecidableEq Key] (map : HashMap Key Value) (key : Key) (value : Value)
    (other : Key) :
    (map.set key value).getOpt other = if other = key then some value else map.getOpt other := by
  split
  next same => rw [same, getOpt_set_same]
  next different => exact getOpt_set_other map value different

/-- What is found after a pair has been set is that pair, or was there before. -/
theorem getOpt_set_cases (present : (map.set key value).getOpt other = some found) :
    other = key ∧ found = value ∨ other ≠ key ∧ map.getOpt other = some found := by
  by_cases same : other = key
  · rw [same, getOpt_set_same] at present
    exact .inl ⟨same, (Option.some.inj present).symm⟩
  · rw [getOpt_set_other map value same] at present
    exact .inr ⟨same, present⟩

theorem found_key {entries : List (Key × Value)} {entry : Key × Value}
    (found : entries.find? (fun entry => (HashKey.order Key).equivalent key entry.1) = some entry) :
    key = entry.1 := by
  have near : (HashKey.order Key).equivalent key entry.1 := by simpa using List.find?_some found
  exact HashKey.equivalent_iff.mp near

theorem at?_eq (map : HashMap Key Value) (key : Key) :
    map.at? key = (map.getOpt key).map fun value => (key, value) := by
  rw [at?, getOpt]
  cases found : map.entries.find? fun entry => (HashKey.order Key).equivalent key entry.1 with
  | none => rfl
  | some entry =>
    rw [found_key found, Option.map_some, Option.map_some]

/-- The pairs that are listed are found. -/
theorem getOpt_of_mem {entry : Key × Value} (member : entry ∈ map.entries) :
    (map.getOpt entry.1).isSome := by
  rw [getOpt, Option.isSome_map, List.find?_isSome]
  exact ⟨entry, member, HashKey.equivalent_iff.mpr rfl⟩

theorem mem_of_getOpt (present : map.getOpt key = some value) : (key, value) ∈ map.entries := by
  obtain ⟨entry, found, rfl⟩ := Option.map_eq_some_iff.mp present
  exact found_key found ▸ List.mem_of_find?_eq_some found

theorem iter_present (first : map.iter = some key) : (map.getOpt key).isSome := by
  obtain ⟨entry, head, rfl⟩ := Option.map_eq_some_iff.mp first
  exact getOpt_of_mem (List.mem_of_head? head)

theorem advance_present (next : map.advance other = some key) : (map.getOpt key).isSome := by
  obtain ⟨entry, found, rfl⟩ := Option.map_eq_some_iff.mp next
  exact getOpt_of_mem (List.mem_of_find?_eq_some found)

/-- A key that is found stays so. -/
theorem getOpt_set_isSome (key : Key) (value : Value) (present : (map.getOpt other).isSome) :
    ((map.set key value).getOpt other).isSome := by
  by_cases same : other = key
  · rw [same, getOpt_set_same]; rfl
  · rwa [getOpt_set_other map value same]

/-- The pair takes the place of its key among the nodes. -/
theorem insert_splits {entries : List (Key × Value)}
    {below same above : List (HashTable.Node (HashMap.Node Key Value))}
    (splits : Splits (HashMaps.order Key Value) (HashMaps.node key (some value))
      (entries.map fun entry => HashMaps.node entry.1 (some entry.2)) below same above) :
    (insert key value entries).map (fun entry => HashMaps.node entry.1 (some entry.2)) =
      below ++ HashMaps.node key (some value) :: above := by
  induction entries generalizing below with
  | nil =>
    obtain ⟨rfl, rfl, rfl⟩ : below = [] ∧ same = [] ∧ above = [] := by
      simpa [List.append_eq_nil_iff] using splits.whole.symm
    rfl
  | cons entry rest ih =>
    have whole := splits.whole
    rw [List.map_cons] at whole
    unfold insert
    rw [HashKey.order_less key entry.1 (some value) (some entry.2),
      HashKey.order_greater key entry.1 (some value) (some entry.2)]
    cases below with
    | cons node lower =>
      injection whole with head tail
      have less := splits.below node List.mem_cons_self
      rw [← head] at less
      have strict : (HashMaps.order Key Value).Strict := HashMaps.order_strict
      rw [if_neg (by rw [strict.asymm less]; exact Bool.false_ne_true), if_pos (by rwa [strict.converse]), List.map_cons, List.cons_append,
        head]
      refine congrArg _ (ih ⟨tail,
        fun value member => splits.below value (List.mem_cons_of_mem _ member),
          splits.same, splits.above⟩)
    | nil =>
      obtain rfl | ⟨stored, rfl, near⟩ := splits.same
      · have less := splits.above (HashMaps.node entry.1 (some entry.2))
          (by rw [← List.nil_append above, ← List.nil_append [], ← whole]; simp)
        rw [if_pos less]
        simp [whole]
      · injection whole with head tail
        rw [← head] at near
        have unequal := HashMaps.order_strict.equivalent_iff.mp near
        rw [if_neg (by rw [unequal.1]; exact Bool.false_ne_true), if_neg (by rw [HashMaps.order_strict.converse, unequal.2]; exact Bool.false_ne_true)]
        simp [tail]

end HashMap

namespace HashMaps
variable [HashKey.Lawful Key] {state : HashMaps Key Value} {maps : SetId → HashMap Key Value}

/-- The trees hold the pairs of the maps. -/
def Lists (state : HashMaps Key Value) (maps : SetId → HashMap Key Value) : Prop :=
  ∃ trees, SortedSets.Represents (order Key Value) state trees ∧
    ∀ map, values (trees map) = (maps map).entries.map fun entry => node entry.1 (some entry.2)

omit [HashKey.Lawful Key] in
theorem Lists.initial : Lists (.initial : HashMaps Key Value) fun _ => .empty :=
  ⟨fun _ => .nil, .initial, fun _ => rfl⟩

theorem Lists.getOpt (lists : state.Lists maps) (map : SetId) (key : Key) :
    state.getOpt map key = .ok ((maps map).getOpt key) := by
  obtain ⟨trees, represents, entries⟩ := lists
  have found : (values (trees map)).find? (fun other => (order Key Value).equivalent (node key none) other) =
      ((maps map).entries.find? fun entry => (HashKey.order Key).equivalent key entry.1).map
        fun entry => node entry.1 (some entry.2) := by
    rw [entries, List.find?_map]
    rfl
  rw [HashMaps.getOpt, (represents.holds map).search_find order_strict, found, HashMap.getOpt]
  cases (maps map).entries.find? fun entry => (HashKey.order Key).equivalent key entry.1 <;> rfl

/-- Setting a pair in a tree sets it in the list. -/
theorem Lists.set (lists : state.Lists maps) (map : SetId) (key : Key) (value : Value) :
    ∃ after, state.execute (.set map key value) = .ok after ∧
      after.Lists (Function.update maps map ((maps map).set key value)) := by
  obtain ⟨trees, represents, entries⟩ := lists
  obtain ⟨after, built, ran, still, changes, _⟩ :=
    represents.execute order_strict (setEvent (.set map key value))
  obtain ⟨below, same, above, splits, changed⟩ := changes
  refine ⟨after, ran, built, still, fun other => ?_⟩
  rw [congrFun changed other, Function.update_apply, Function.update_apply]
  split
  next =>
    have listed : Splits (order Key Value) (node key (some value)) (values (trees map)) below same
      above := splits
    rw [entries] at listed
    exact (HashMap.insert_splits listed).symm
  next => exact entries other

end HashMaps
end PicoOs.Std
