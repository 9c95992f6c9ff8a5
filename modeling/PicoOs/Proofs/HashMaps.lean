import PicoOs.Proofs.SortedSets
import PicoOs.Std.HashMap

/-! Hash maps are finite maps, whatever the hashes of the keys are. The trees are ordered
by the hash first, so that the order of the keys only has to decide between equal hashes. -/

namespace PicoOs.Std
open Library

namespace HashTable.Node
variable {T : Type} {order : Comparison T} {first second third : HashTable.Node T}

theorem hash_trichotomy (first second : HashTable.Node T) :
    first.hash < second.hash ∨ first.hash = second.hash ∨ second.hash < first.hash := by
  simp only [UInt32.lt_iff_toNat_lt, ← UInt32.toNat_inj]
  exact Nat.lt_trichotomy _ _

theorem less_iff : (HashTable.Node.order order).less first second ↔
    first.hash < second.hash ∨ first.hash = second.hash ∧ order.less first.value second.value := by
  simp only [HashTable.Node.order, gt_iff_lt, UInt32.lt_iff_toNat_lt, ← UInt32.toNat_inj]
  split
  next below => simp [below]
  next notBelow =>
    split
    next above =>
      have different : first.hash.toNat ≠ second.hash.toNat := Nat.ne_of_gt above
      simp [notBelow, different]
    next notAbove =>
      have same : first.hash.toNat = second.hash.toNat := by omega
      simp [same]

/-- Nodes in the order of their hashes, and where these are equal in the order of their values. -/
theorem order_strict (strict : order.Strict) : (HashTable.Node.order order).Strict where
  converse first second := by simp only [HashTable.Node.order, strict.converse, gt_iff_lt]
  irrefl node := by
    rw [Bool.eq_false_iff, ne_eq, less_iff]
    rintro (below | ⟨_, less⟩)
    · exact UInt32.lt_irrefl _ below
    · rw [strict.irrefl] at less
      cases less
  trans {first second third} less next := by
    rw [less_iff] at less next ⊢
    obtain below | ⟨same, less⟩ := less <;> obtain above | ⟨equal, next⟩ := next
    · exact .inl (UInt32.lt_trans below above)
    · exact .inl (equal ▸ below)
    · exact .inl (same ▸ above)
    · exact .inr ⟨same.trans equal, strict.trans less next⟩
  total {first third} second less := by
    rw [less_iff, less_iff]
    obtain below | equal | above := hash_trichotomy first second
    · exact .inl (.inl below)
    · obtain before | ⟨same, less⟩ := less_iff.mp less
      · exact .inr (.inl (equal ▸ before))
      · obtain left | right := strict.total second.value less
        · exact .inl (.inr ⟨equal, left⟩)
        · exact .inr (.inr ⟨equal.symm.trans same, right⟩)
    · obtain before | ⟨same, _⟩ := less_iff.mp less
      · exact .inr (.inl (UInt32.lt_trans above before))
      · exact .inr (.inl (same ▸ above))

/-- The search stops where both the hashes and the values are the same. -/
theorem equivalent_iff (strict : order.Strict) :
    (HashTable.Node.order order).equivalent first second ↔
    first.hash = second.hash ∧ order.equivalent first.value second.value := by
  rw [(order_strict strict).equivalent_iff, strict.equivalent_iff, Bool.eq_false_iff,
    Bool.eq_false_iff, ne_eq, ne_eq, less_iff,
    less_iff]
  constructor
  · rintro ⟨notLess, notGreater⟩
    obtain below | equal | above := hash_trichotomy first second
    · exact absurd (.inl below) notLess
    · exact ⟨equal, Bool.eq_false_iff.mpr fun less => notLess (.inr ⟨equal, less⟩),
        Bool.eq_false_iff.mpr fun less => notGreater (.inr ⟨equal.symm, less⟩)⟩
    · exact absurd (.inl above) notGreater
  · rintro ⟨equal, notLess, notGreater⟩
    rw [equal, notLess, notGreater]
    simp [UInt32.lt_irrefl]

end HashTable.Node

class HashKey.Lawful (Key : Type) [HashKey Key] : Prop where
  trans : Std.TransCmp (HashKey.compare : Key → Key → Ordering)
  equal : Std.LawfulEqCmp (HashKey.compare : Key → Key → Ordering)

section
variable {Key Value : Type} [HashKey Key] [lawful : HashKey.Lawful Key]

theorem HashMap.Node.order_strict :
    (HashMap.Node.order Value : Comparison (HashMap.Node Key Value)).Strict where
  converse first second := by
    have := lawful.trans
    simp only [HashMap.Node.order, Std.OrientedCmp.gt_iff_lt]
  irrefl node := by
    have := lawful.equal
    simp [HashMap.Node.order, Std.ReflCmp.compare_self]
  trans {first second third} less next := by
    have := lawful.trans
    simp only [HashMap.Node.order, decide_eq_true_eq] at less next ⊢
    exact Std.TransCmp.lt_trans less next
  total {first third} second less := by
    have := lawful.trans
    simp only [HashMap.Node.order, decide_eq_true_eq] at less ⊢
    cases compared : HashKey.compare first.key second.key with
    | lt => exact .inl rfl
    | eq => exact .inr (Std.TransCmp.lt_of_eq_of_lt (Std.OrientedCmp.eq_symm compared) less)
    | gt => exact .inr (Std.TransCmp.lt_trans (Std.OrientedCmp.lt_of_gt compared) less)

private theorem HashMap.Node.equivalent_iff {first second : HashMap.Node Key Value} :
    (HashMap.Node.order Value).equivalent first second ↔ first.key = second.key := by
  have := lawful.trans
  have := lawful.equal
  simp only [Comparison.equivalent, HashMap.Node.order, Bool.and_eq_true, Bool.not_eq_true',
    decide_eq_false_iff_not]
  have same : HashKey.compare first.key second.key = .eq ↔ first.key = second.key :=
    Std.LawfulEqCmp.compare_eq_iff_eq
  rw [← same]
  cases HashKey.compare first.key second.key <;> simp

end

namespace HashMaps
variable {Key Value : Type} [HashKey Key]

def latest [DecidableEq Key] : List (MapEvent Key Value) → SetId → Key → Option Value
  | [], _, _ => none
  | .set other stored value :: earlier, map, key =>
      if other = map ∧ key = stored then some value else latest earlier map key
  | .remove other removed :: earlier, map, key =>
      if other = map ∧ key = removed then none else latest earlier map key
  | .clear other :: earlier, map, key => if other = map then none else latest earlier map key

/-- The maps are what the events make of them. -/
structure Follows [DecidableEq Key] (state : HashMaps Key Value)
    (events : List (MapEvent Key Value)) : Prop where
  get : ∀ map key, state.get map key = .ok (latest events map key)
  getOpt : ∀ map key, state.getOpt map key = .ok (latest events map key)
  size : ∀ map, ∃ keys : List Key, keys.Nodup ∧
    (∀ key, key ∈ keys ↔ (latest events map key).isSome) ∧
    state.size map = keys.length
  next : ∀ event, ∃ next, state.execute event = .ok next

/-- What is claimed of hash maps: the order of the nodes is strict and total, and every run
makes finite maps. -/
structure Refines (Key Value : Type) [HashKey Key] [DecidableEq Key] : Prop where
  strict : (order Key Value).Strict
  equivalent : ∀ first second, (order Key Value).equivalent first second ↔
    first.hash = second.hash ∧ first.value.key = second.value.key
  follows : ∀ {history state}, (machine Key Value).Run .initial history state →
    state.Follows (history.map Prod.snd).reverse

private theorem latest_hash {events : List (MapEvent Key Value)} {map : SetId}
    {key found : HashTable.Node (HashMap.Node Key Value)}
    (stored : Std.latest (order Key Value) (events.map setEvent) map key = some found) :
    found.hash = HashKey.compute found.value.key := by
  induction events with
  | nil => cases stored
  | cons event earlier ih =>
    cases event with
    | set other stored' value =>
      simp only [List.map_cons, setEvent, Std.latest] at stored
      split at stored
      next =>
        cases stored
        rfl
      next => exact ih stored
    | remove other removed | clear other =>
      simp only [List.map_cons, setEvent, Std.latest] at stored
      split at stored
      next => cases stored
      next => exact ih stored

private theorem run_sets {history : List (HashMaps Key Value × MapEvent Key Value)}
    {state : HashMaps Key Value}
    (run : (machine Key Value).Run .initial history state) :
    (SortedSets.machine (order Key Value)).Run .initial (history.map fun entry => (entry.1,
      setEvent entry.2)) state := by
  induction run with
  | start => exact .start
  | @step history state event next run permitted executed ih =>
    rw [List.map_append]
    exact ih.step trivial executed

variable [HashKey.Lawful Key]

theorem order_strict : (order Key Value).Strict :=
  HashTable.Node.order_strict HashMap.Node.order_strict

theorem order_equivalent {first second : HashTable.Node (HashMap.Node Key Value)} :
    (order Key Value).equivalent first second ↔
    first.hash = second.hash ∧ first.value.key = second.value.key := by
  rw [order, HashTable.Node.equivalent_iff HashMap.Node.order_strict, HashMap.Node.equivalent_iff]

theorem node_equivalent {key other : Key} {value found : Option Value} :
    (order Key Value).equivalent (node key value) (node other found) ↔ key = other := by
  rw [order_equivalent]
  exact ⟨And.right, fun same => ⟨congrArg HashKey.compute same, same⟩⟩

variable [DecidableEq Key]

/-- The trees follow the maps: a node that is found has the latest value of its key. -/
theorem latest_node (events : List (MapEvent Key Value)) (map : SetId) (key : Key)
    (value : Option Value) :
    Std.latest (order Key Value) (events.map setEvent) map (node key value) =
      (latest events map key).map fun found => node key (some found) := by
  induction events with
  | nil => rfl
  | cons event earlier ih =>
    cases event with
    | set other stored found =>
      simp only [List.map_cons, setEvent, Std.latest, latest, node_equivalent, ih]
      split
      next same => rw [same.2]; rfl
      next => rfl
    | remove other removed =>
      simp only [List.map_cons, setEvent, Std.latest, latest, node_equivalent, ih]
      split <;> rfl
    | clear other =>
      simp only [List.map_cons, setEvent, Std.latest, latest, ih]
      split <;> rfl

/-- The nodes of a tree have the keys that are present, each of them once. -/
theorem keys_present {events : List (MapEvent Key Value)} {map : SetId}
    {nodes : List (HashTable.Node (HashMap.Node Key Value))}
    (sorted : Sorted (order Key Value) nodes)
    (follows : ∀ node, Std.latest (order Key Value) (events.map setEvent) map node =
      nodes.find? fun other => (order Key Value).equivalent node other) :
    (nodes.map fun node => node.value.key).Nodup ∧
      ∀ key, key ∈ nodes.map (fun node => node.value.key) ↔ (latest events map key).isSome := by
  have own : ∀ node ∈ nodes, Std.latest (order Key Value) (events.map setEvent) map node =
    some node := by
    intro node member
    obtain ⟨below, above, splits⟩ := sorted.splits order_strict member
    rw [follows, splits.find order_strict]
    rfl
  have hash : ∀ node ∈ nodes, node.hash = HashKey.compute node.value.key :=
    fun node member => latest_hash (own node member)
  constructor
  · rw [List.Nodup, List.pairwise_map]
    refine List.Pairwise.imp_of_mem (fun {first second} inFirst inSecond less same => ?_) sorted
    have equivalent : (order Key Value).equivalent first second :=
      order_equivalent.mpr ⟨by rw [hash first inFirst, hash second inSecond, same], same⟩
    rw [(order_strict.equivalent_iff.mp equivalent).1] at less
    cases less
  · intro key
    rw [List.mem_map]
    constructor
    · rintro ⟨found, member, rfl⟩
      have stored := own found member
      have same : found = node found.value.key found.value.value := by
        rw [node, ← hash found member]
      rw [same, latest_node, Option.map_eq_some_iff] at stored
      obtain ⟨value, there, _⟩ := stored
      exact Option.isSome_of_eq_some there
    · intro present
      obtain ⟨value, there⟩ := Option.isSome_iff_exists.mp present
      have found := follows (node key none)
      rw [latest_node, there, Option.map_some] at found
      exact ⟨node key (some value), List.mem_of_find?_eq_some found.symm, rfl⟩

private theorem refines : Refines Key Value where
  strict := order_strict
  equivalent _ _ := order_equivalent
  follows {history state} run := by
    obtain ⟨trees, represents, follows⟩ := SortedSets.represented order_strict (run_sets run)
    have events : SetEvent.latestFirst (history.map fun entry => (entry.1, setEvent entry.2)) =
        (history.map Prod.snd).reverse.map setEvent := by
      rw [SetEvent.latestFirst, List.map_map, List.map_reverse, List.map_map]
      rfl
    rw [events] at follows
    generalize (history.map Prod.snd).reverse = latestFirst at follows
    have search : ∀ map key, (state.sets map).search (order Key Value) state.heap (node key none) =
        .ok ((latest latestFirst map key).map fun found => node key (some found)) := by
      intro map key
      rw [(represents.holds map).search_find order_strict, ← follows, latest_node]
    refine ⟨fun map key => ?_, fun map key => ?_, fun map => ?_, fun event => ?_⟩
    · simp only [get, search, bind, Except.bind]
      cases latest latestFirst map key <;> rfl
    · simp only [getOpt, search, bind, Except.bind]
      cases latest latestFirst map key <;> rfl
    · have holds := represents.holds map
      obtain ⟨once, present⟩ := keys_present holds.sorted (follows map)
      refine ⟨_, once, present, ?_⟩
      rw [List.length_map, size, holds.size, length_values]
    · obtain ⟨next, _, ran, _⟩ := represents.execute order_strict (setEvent event)
      exact ⟨next, ran⟩

end HashMaps

private theorem HashKey.lawful_compute {Key : Type} (keys : HashKey Key) (compute : Key → UInt32)
    (trans : Std.TransCmp keys.compare)
    (equal : Std.LawfulEqCmp keys.compare) : @HashKey.Lawful Key { keys with compute } :=
  @HashKey.Lawful.mk Key { keys with compute } trans equal

theorem int_trans : Std.TransCmp (HashKey.compare : Int → Int → Ordering) :=
  inferInstanceAs (Std.TransOrd Int)

theorem int_equal : Std.LawfulEqCmp (HashKey.compare : Int → Int → Ordering) :=
  inferInstanceAs (Std.LawfulEqOrd Int)

theorem string_trans : Std.TransCmp
    (HashKey.compare : ImmutableString → ImmutableString → Ordering) :=
  inferInstanceAs (Std.TransCmp (compareLex (compareOn List.length) (List.compareLex Ord.compare)))

/-- Strings of one size that differ in no byte are equal. -/
theorem string_equal : Std.LawfulEqCmp
    (HashKey.compare : ImmutableString → ImmutableString → Ordering) where
  eq_of_compare {first second} same := by
    have both : (compareOn List.length first second).then
      (List.compareLex Ord.compare first second) = .eq := same
    exact Std.LawfulEqCmp.eq_of_compare (Ordering.then_eq_eq.mp both).2
  compare_self {string} := @Std.ReflCmp.compare_self _
    (compareLex (compareOn List.length) (List.compareLex Ord.compare)) _ string

/-- Hash maps are finite maps, for keys that are integers and for keys that are strings, and
for every hash function. -/
theorem hash_maps_refine (Value : Type) :
    (∀ compute : Int → UInt32, @HashMaps.Refines Int Value { instHashKeyInt with compute } _) ∧
      ∀ compute : ImmutableString →
      UInt32, @HashMaps.Refines ImmutableString Value { instHashKeyImmutableString with compute } _ :=
  ⟨fun compute => @HashMaps.refines Int Value { instHashKeyInt with compute } (HashKey.lawful_compute _ compute int_trans int_equal) _,
    fun compute => @HashMaps.refines ImmutableString Value
      { instHashKeyImmutableString with compute }
      (HashKey.lawful_compute _ compute string_trans string_equal) _⟩

end PicoOs.Std
