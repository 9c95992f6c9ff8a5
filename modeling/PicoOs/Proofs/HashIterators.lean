import PicoOs.Proofs.HashEntries
import PicoOs.Proofs.SetInsertions

/-! Iterators of hash maps that are being filled. In the list of the pairs an iterator is the key
it stands at, in the tree it is a node; while pairs are set, the two go along with each other. -/

namespace PicoOs.Std
open Library
variable {Key Value : Type} [HashKey Key] [HashKey.Lawful Key]

theorem HashKey.order_strict : (HashKey.order Key).Strict := by
  have strict : (HashMaps.order Key Unit).Strict := HashMaps.order_strict
  constructor
  · exact fun first second => strict.converse (HashMaps.node first none) (HashMaps.node second none)
  · exact fun value => strict.irrefl (HashMaps.node value none)
  · exact fun {first second third} =>
      @(@Comparison.Strict.trans _ _ strict (HashMaps.node first none) (HashMaps.node second none)
      (HashMaps.node third none))
  · exact fun {first third} second =>
      @(@Comparison.Strict.total _ _ strict (HashMaps.node first none) (HashMaps.node third none)
      (HashMaps.node second none))

private theorem Sorted.find_after {α : Type} {order : Comparison α} {front rest : List α}
    {value : α} (strict : order.Strict)
    (sorted : Sorted order (front ++ value :: rest)) :
    (front ++ value :: rest).find? (fun other => order.less value other) = rest.head? := by
  rw [Sorted, List.pairwise_append, List.pairwise_cons] at sorted
  obtain ⟨_, ⟨above, _⟩, across⟩ := sorted
  have smaller : front.find? (fun other => order.less value other) = none := by
    refine List.find?_eq_none.mpr fun other member less => ?_
    rw [strict.asymm (across other member value List.mem_cons_self)] at less
    cases less
  rw [List.find?_append, smaller, Option.none_or, List.find?_cons, strict.irrefl]
  cases rest with
  | nil => rfl
  | cons next rest => rw [List.find?_cons, above next List.mem_cons_self]; rfl

namespace HashMap
variable {map : HashMap Key Value} {key other found : Key}

def Ascending (map : HashMap Key Value) : Prop :=
  (map.entries.map Prod.fst).Pairwise fun first second => (HashKey.order Key).less first second

private theorem Ascending.nodup (ascending : map.Ascending) : (map.entries.map Prod.fst).Nodup := by
  refine List.Pairwise.imp (fun {first second} less same => ?_) ascending
  subst same
  rw [HashKey.order_strict.irrefl] at less
  cases less

theorem present_iff : (map.getOpt key).isSome ↔ key ∈ map.entries.map Prod.fst := by
  constructor
  · intro present
    obtain ⟨value, there⟩ := Option.isSome_iff_exists.mp present
    exact List.mem_map.mpr ⟨(key, value), mem_of_getOpt there, rfl⟩
  · intro member
    obtain ⟨entry, listed, rfl⟩ := List.mem_map.mp member
    exact getOpt_of_mem listed

private theorem Ascending.getOpt (ascending : map.Ascending) {entry : Key × Value}
    (member : entry ∈ map.entries) :
    map.getOpt entry.1 = some entry.2 := by
  obtain ⟨value, there⟩ := Option.isSome_iff_exists.mp (getOpt_of_mem member)
  have same : (entry.1, value) = entry :=
    List.inj_on_of_nodup_map ascending.nodup (mem_of_getOpt there) member rfl
  rw [there, ← same]

theorem advance_none (ended : map.advance key = none) (present : (map.getOpt other).isSome) :
    (HashKey.order Key).less key other = false := by
  rw [advance, Option.map_eq_none_iff, List.find?_eq_none] at ended
  obtain ⟨entry, listed, rfl⟩ := List.mem_map.mp (present_iff.mp present)
  exact Bool.eq_false_iff.mpr (ended entry listed)

/-- The next key is the least one behind. -/
theorem Ascending.advance_some (ascending : map.Ascending) (next : map.advance key = some found) :
    (HashKey.order Key).less key found ∧
    ∀ other, (map.getOpt other).isSome → (HashKey.order Key).less key other →
    (HashKey.order Key).less other found = false := by
  obtain ⟨entry, found, rfl⟩ := Option.map_eq_some_iff.mp next
  obtain ⟨less, front, rest, split, skipped⟩ := List.find?_eq_some_iff_append.mp found
  refine ⟨less, fun other present behind => ?_⟩
  obtain ⟨pair, listed, rfl⟩ := List.mem_map.mp (present_iff.mp present)
  rw [Ascending, split, List.map_append, List.map_cons, List.pairwise_append,
    List.pairwise_cons] at ascending
  obtain ⟨_, ⟨above, _⟩, _⟩ := ascending
  rw [split] at listed
  rcases List.mem_append.mp listed with before | after
  · have passed := skipped pair before
    rw [behind] at passed
    cases passed
  · rcases List.mem_cons.mp after with rfl | after
    · exact HashKey.order_strict.irrefl _
    · exact HashKey.order_strict.asymm (above pair.1 (List.mem_map_of_mem after))

omit [HashKey.Lawful Key] in
theorem iter_none (empty : map.iter = none) : map.getOpt key = none := by
  rw [iter, Option.map_eq_none_iff, List.head?_eq_none_iff] at empty
  rw [getOpt, empty]
  rfl

theorem Ascending.iter_some (ascending : map.Ascending) (first : map.iter = some found)
    (present : (map.getOpt other).isSome) :
    (HashKey.order Key).less other found = false := by
  obtain ⟨entry, head, rfl⟩ := Option.map_eq_some_iff.mp first
  obtain ⟨pair, listed, rfl⟩ := List.mem_map.mp (present_iff.mp present)
  obtain ⟨rest, split⟩ : ∃ rest, map.entries = entry :: rest := ⟨_, List.eq_cons_of_mem_head? head⟩
  rw [Ascending, split, List.map_cons, List.pairwise_cons] at ascending
  rw [split] at listed
  rcases List.mem_cons.mp listed with rfl | after
  · exact HashKey.order_strict.irrefl _
  · exact HashKey.order_strict.asymm (ascending.1 pair.1 (List.mem_map_of_mem after))

end HashMap

namespace HashMaps
open SortedSet
variable {state : HashMaps Key Value} {maps : SetId → HashMap Key Value} {map : SetId}
  {iterator : Option NodeRef} {position : Option Key}
  {tree : BinaryTree (NodeRef × HashTable.Node (HashMap.Node Key Value))}

def At (tree : BinaryTree (NodeRef × HashTable.Node (HashMap.Node Key Value))) :
    Option NodeRef → Option Key → Prop
  | none, none => True
  | some ref, some key => ∃ value, (ref, node key value) ∈ Library.inorder tree
  | _, _ => False

/-- The trees hold the pairs of the maps, and an iterator of one of them is at the position. -/
structure Tracks (state : HashMaps Key Value) (maps : SetId → HashMap Key Value) (map : SetId)
    (iterator : Option NodeRef)
    (position : Option Key) : Prop where
  represented : ∃ trees, SortedSets.Represents (order Key Value) state trees ∧
    SortedSets.Parents state trees ∧
    (∀ map, values (trees map) = (maps map).entries.map fun entry => node entry.1 (some entry.2)) ∧
      At (trees map) iterator position

omit [HashKey.Lawful Key] in
theorem Tracks.lists (tracks : state.Tracks maps map iterator position) : state.Lists maps := by
  obtain ⟨trees, represents, _, entries, _⟩ := tracks.represented
  exact ⟨trees, represents, entries⟩

omit [HashKey.Lawful Key] in
theorem Lists.ascending (lists : state.Lists maps) (map : SetId) : (maps map).Ascending := by
  obtain ⟨trees, represents, entries⟩ := lists
  have sorted := (represents.holds map).sorted
  rw [entries map, Sorted, List.pairwise_map] at sorted
  rw [HashMap.Ascending, List.pairwise_map]
  exact sorted

omit [HashKey.Lawful Key] in
theorem Lists.size (lists : state.Lists maps) (map : SetId) :
    HashMaps.size state map = (maps map).entries.length := by
  obtain ⟨trees, represents, entries⟩ := lists
  rw [HashMaps.size, (represents.holds map).size, ← length_values, entries map, List.length_map]

/-- Setting a pair moves no iterator. -/
theorem Tracks.set (tracks : state.Tracks maps map iterator position) (other : SetId) (key : Key)
    (value : Value) :
    ∃ after, state.execute (.set other key value) = .ok after ∧
      after.Tracks (Function.update maps other ((maps other).set key value)) map
        iterator position := by
  obtain ⟨trees, represents, parents, entries, here⟩ := tracks.represented
  obtain ⟨after, built, ran, still, changes, keeps, labels⟩ :=
    represents.insert order_strict other (node key (some value))
  obtain ⟨below, same, above, splits, changed⟩ := changes
  refine ⟨after, ran, _, still, keeps parents, fun set => ?_, ?_⟩
  · rw [congrFun changed set, Function.update_apply, Function.update_apply]
    split
    next =>
      have listed : Splits (order Key Value) (node key (some value)) (values (trees other)) below
        same above := splits
      rw [entries] at listed
      exact (HashMap.insert_splits listed).symm
    next => exact entries set
  · rw [Function.update_apply]
    split
    next isOther =>
      subst isOther
      cases iterator with
      | none => cases position <;> exact here
      | some ref =>
        cases position with
        | none => exact here
        | some place =>
          obtain ⟨stored, member⟩ := here
          obtain ⟨_, inBuilt, rfl | ⟨rfl, near⟩⟩ := labels _ member
          · exact ⟨stored, inBuilt⟩
          · obtain rfl : key = place := node_equivalent.mp near
            exact ⟨some value, inBuilt⟩
    next => exact here

omit [HashKey.Lawful Key] in
/-- A new iterator is at the first pair. -/
theorem Tracks.start {trees : SetId → BinaryTree (NodeRef × HashTable.Node (HashMap.Node Key Value))}
    (represents : SortedSets.Represents (order Key Value) state trees)
    (parents : SortedSets.Parents state trees)
    (entries : ∀ map, values (trees map) = (maps map).entries.map fun entry => node entry.1 (some entry.2)) (map : SetId) :
    ∃ iterator, (state.sets map).inorder state.heap = .ok iterator ∧
    state.Tracks maps map iterator (maps map).iter := by
  obtain ⟨iterator, begins, follows⟩ := inorder_spec (represents.holds map)
  refine ⟨iterator, begins, trees, represents, parents, entries, ?_⟩
  have first := congrArg List.head? (entries map)
  rw [values, List.head?_map, List.head?_map] at first
  cases iterator with
  | none =>
    have empty : Library.inorder (trees map) = [] := follows
    rw [empty] at first
    rw [HashMap.iter, Option.map_eq_none_iff.mp first.symm]
    trivial
  | some ref =>
    obtain ⟨path, label, left, right, shape, rfl, ahead⟩ := follows
    rw [ahead] at first
    obtain ⟨entry, head, same⟩ := Option.map_eq_some_iff.mp first.symm
    rw [HashMap.iter, head]
    refine ⟨some entry.2, ?_⟩
    rw [same, ahead]
    exact List.mem_cons_self

/-- The node at the position has its pair, and the iterator goes on to the next position. -/
theorem Tracks.advance {ref : NodeRef} {key : Key}
    (tracks : state.Tracks maps map (some ref) (some key)) :
    ∃ value contents next, (maps map).getOpt key = some value ∧ state.heap.load ref = .ok contents ∧
    contents.value = node key (some value) ∧
      SortedSet.advance state.heap (some ref) = .ok next ∧
      state.Tracks maps map next ((maps map).advance key) := by
  have ascending := tracks.lists.ascending map
  obtain ⟨trees, represents, parents, entries, stored, member⟩ := tracks.represented
  have listed : node key stored ∈ values (trees map) := List.mem_map.mpr ⟨_, member, rfl⟩
  rw [entries map] at listed
  obtain ⟨entry, inEntries, same⟩ := List.mem_map.mp listed
  obtain ⟨rfl, rfl⟩ : entry.1 = key ∧ some entry.2 = stored := by
    have values := congrArg HashTable.Node.value same
    exact ⟨congrArg HashMap.Node.key values, congrArg HashMap.Node.value values⟩
  obtain ⟨contents, here, value⟩ := linked_value (represents.holds map).linked member
  obtain ⟨path, left, right, shape⟩ := exists_plug member
  have holds := represents.holds map
  have parented := parents map
  rw [← shape] at holds parented
  obtain ⟨next, advanced, follows⟩ := advance_spec holds parented
  refine ⟨entry.2, contents, next, ascending.getOpt inEntries, NodeHeap.load_present here, value,
    advanced, trees, represents, parents,
    entries, ?_⟩
  have found : ((maps map).entries.find? fun other => (HashKey.order Key).less entry.1 other.1).map
    (fun other => node other.1 (some other.2)) =
      ((Library.inorder right ++ after path).map Prod.snd).head? := by
    have sorted := holds.sorted
    have split : values (plug path (.node (ref, node entry.1 (some entry.2)) left right)) =
        ((before path ++ Library.inorder left).map Prod.snd) ++
          node entry.1 (some entry.2) :: (Library.inorder right ++ after path).map Prod.snd := by
      simp [values, inorder_plug, Library.inorder]
    rw [split] at sorted
    have behind := sorted.find_after order_strict
    rw [← split, shape, entries map, List.find?_map] at behind
    exact behind
  rw [HashMap.advance, ← shape]
  cases next with
  | none =>
    rw [show Library.inorder right ++ after path = [] from follows] at found
    rw [Option.map_eq_none_iff.mp found]
    trivial
  | some beyond =>
    obtain ⟨above, label, inner, outer, same, rfl, ahead⟩ := follows
    rw [ahead] at found
    obtain ⟨other, first, equal⟩ := Option.map_eq_some_iff.mp found
    rw [first]
    refine ⟨some other.2, ?_⟩
    rw [equal, ← same, inorder_plug]
    simp [Library.inorder]

end HashMaps
end PicoOs.Std
