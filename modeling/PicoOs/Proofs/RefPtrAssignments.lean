import PicoOs.Library.Outcome
import PicoOs.Std.ObjectGraph

/-! Assignments to a `RefPtr` whose old object goes away, with everything that only it has kept
alive. What is destroyed is the least set of objects all of whose references come from the
location or from inside the set. -/

namespace PicoOs.Std
open Library

namespace ObjectGraph
variable {graph after : ObjectGraph} {location other : Location} {object : ObjectRef}
  {value : OwningObject} {pointer found : Option ObjectRef}
  {index : Nat}

theorem load_ok : graph.load object = .ok value ↔ graph.objects object = some value := by
  unfold load
  cases graph.objects object <;> simp

theorem read_member : graph.read (.member object index) = .ok pointer ↔
    ∃ value, graph.objects object = some value ∧ value.members[index]? = some pointer := by
  constructor
  · intro read
    obtain ⟨value, loaded, there⟩ := bind_ok.mp read
    split at there
    next found same =>
      obtain rfl := Except.ok.inj there
      exact ⟨value, load_ok.mp loaded, same⟩
    next => cases there
  · rintro ⟨value, loaded, there⟩
    simp only [read, load_ok.mpr loaded, there, bind, Except.bind]

@[simp] theorem store_same (graph : ObjectGraph) (object : ObjectRef) (value : OwningObject) :
    (graph.store object value).objects object = some value := Function.update_self ..

theorem store_other (graph : ObjectGraph) {object another : ObjectRef}
    (different : another ≠ object) (value : OwningObject) :
    (graph.store object value).objects another = graph.objects another :=
  Function.update_of_ne different ..

@[simp] theorem free_same (graph : ObjectGraph) (object : ObjectRef) :
    (graph.free object).objects object = none := Function.update_self ..

theorem free_other (graph : ObjectGraph) {object another : ObjectRef}
    (different : another ≠ object) :
    (graph.free object).objects another = graph.objects another :=
  Function.update_of_ne different ..

theorem read_recount (loaded : graph.objects object = some value) (count : Nat)
    (location : Location) :
    (graph.store object { value with refcount := count }).read location = graph.read location := by
  cases location with
  | named name => rfl
  | member owner index =>
    by_cases same : owner = object
    · subst same
      simp only [read, load, store, Function.update_self, loaded]
      rfl
    · simp only [read, load, store, Function.update_of_ne same]

theorem store_grows (object : ObjectRef) (value : OwningObject) {another : ObjectRef}
    (there : ∃ held, graph.objects another = some held) :
    ∃ later, (graph.store object value).objects another = some later := by
  by_cases equal : another = object
  · exact ⟨value, equal ▸ store_same graph object value⟩
  · obtain ⟨held, found⟩ := there
    exact ⟨held, by rw [store_other _ equal, found]⟩

theorem store_missing (loaded : graph.objects object = some value) (later : OwningObject)
    {another : ObjectRef}
    (absent : graph.objects another = none) :
    (graph.store object later).objects another = none := by
  have different : another ≠ object := by
    rintro rfl
    cases absent.symm.trans loaded
  rw [store_other _ different, absent]

theorem read_free (read : (graph.free object).read location = .ok pointer) :
    graph.read location = .ok pointer := by
  cases location with
  | named name => exact read
  | member owner index =>
    obtain ⟨value, loaded, there⟩ := read_member.mp read
    by_cases same : owner = object
    · subst same
      simp only [free, Function.update_self] at loaded
      cases loaded
    · simp only [free, Function.update_of_ne same] at loaded
      exact read_member.mpr ⟨value, loaded, there⟩

private theorem read_freed (owns : location.owner = some object)
    (freed : graph.objects object = none) : graph.read location = .error .dangling := by
  cases location with
  | named name => cases owns
  | member owner index =>
    obtain rfl := Option.some.inj owns
    simp only [read, load, freed, bind, Except.bind]

structure Writes (graph : ObjectGraph) (location : Location) (pointer : Option ObjectRef)
    (after : ObjectGraph) : Prop where
  done : graph.write location pointer = .ok after
  written : after.read location = .ok pointer
  others : ∀ other, other ≠ location → after.read other = graph.read other
  objects : ∀ object value, graph.objects object = some value →
    ∃ later, after.objects object = some later ∧ later.refcount = value.refcount ∧
      later.members.length = value.members.length
  missing : ∀ object, graph.objects object = none → after.objects object = none

theorem write_ok (read : graph.read location = .ok found) (pointer : Option ObjectRef) :
    ∃ after, graph.Writes location pointer after := by
  cases location with
  | named name =>
    refine ⟨{ graph with pointers := Function.update graph.pointers name pointer }, rfl, ?_, ?_, ?_,
      fun _ missing => missing⟩
    · simp only [ObjectGraph.read, Function.update_self]
    · intro other different
      cases other with
      | named more =>
        have apart : more ≠ name := fun same => different (by rw [same])
        simp only [ObjectGraph.read, Function.update_of_ne apart]
      | member object index => rfl
    · exact fun object value loaded => ⟨value, loaded, rfl, rfl⟩
  | member object index =>
    obtain ⟨value, loaded, there⟩ := read_member.mp read
    have inside := (List.getElem?_eq_some_iff.mp there).1
    have stored : (graph.store object { value with members := value.members.set index pointer }).objects object =
        some { value with members := value.members.set index pointer } := by
      simp only [store, Function.update_self]
    refine ⟨graph.store object { value with members := value.members.set index pointer }, ?_,
      ?_, ?_, ?_, ?_⟩
    · simp only [write, load_ok.mpr loaded, bind, Except.bind]
    · exact read_member.mpr ⟨_, stored, List.getElem?_set_self inside⟩
    · intro other different
      cases other with
      | named more => rfl
      | member owner position =>
        by_cases same : owner = object
        · subst same
          have apart : index ≠ position := fun equal => different (by rw [equal])
          simp only [ObjectGraph.read, load, store, Function.update_self, loaded, bind, Except.bind,
            List.getElem?_set_ne apart]
        · simp only [ObjectGraph.read, load, store, Function.update_of_ne same]
    · intro owner held there
      by_cases same : owner = object
      · subst same
        obtain rfl := Option.some.inj (loaded.symm.trans there)
        exact ⟨_, stored, rfl, List.length_set⟩
      · exact ⟨held, by simp only [store, Function.update_of_ne same, there], rfl, rfl⟩
    · intro owner missing
      have apart : owner ≠ object := by
        rintro rfl
        cases missing.symm.trans loaded
      simp only [store, Function.update_of_ne apart, missing]

/-- Pointers lead to objects that exist, and no more references lead to an object than it counts. -/
structure Counted (graph : ObjectGraph) : Prop where
  old : ∀ object value, graph.objects object = some value → object < graph.next
  positive : ∀ object value, graph.objects object = some value → 0 < value.refcount
  live : ∀ location object, graph.read location = .ok (some object) →
    ∃ value, graph.objects object = some value
  enough : ∀ object value (holders : Finset Location), graph.objects object = some value →
    (∀ holder ∈ holders, graph.read holder = .ok (some object)) → holders.card ≤ value.refcount

/-- The object goes away when the location gives up its own: as many references as are counted come
from there or from objects that go away. -/
inductive Destroys (graph : ObjectGraph) (location : Location) : ObjectRef → Prop where
  | spent {object : ObjectRef} {value : OwningObject} (holders : Finset Location)
      (loaded : graph.objects object = some value)
      (lead : ∀ holder ∈ holders, graph.read holder = .ok (some object))
        (count : value.refcount ≤ holders.card)
      (owned : ∀ holder ∈ holders, holder ≠ location → holder.owner ≠ none)
      (destroys : ∀ holder ∈ holders, holder ≠ location → ∀ owner, holder.owner = some owner →
        Destroys graph location owner) :
      Destroys graph location object

def references (graph : ObjectGraph) (locations : Finset Location) (object : ObjectRef) : Nat :=
  (locations.filter fun location => graph.read location = .ok (some object)).card

section References
variable {locations more : Finset Location}

theorem references_insert (new : location ∉ locations)
    (leads : graph.read location = .ok (some object)) :
    graph.references (insert location locations) object =
      graph.references locations object + 1 := by
  rw [references, Finset.filter_insert, if_pos leads,
    Finset.card_insert_of_notMem fun member => new (Finset.mem_filter.mp member).1]
  rfl

private theorem references_insert_other {another : ObjectRef}
    (leads : graph.read location = .ok (some object)) (different : another ≠ object) :
    graph.references (insert location locations) another = graph.references locations another := by
  have not : ¬graph.read location = .ok (some another) := by
    rw [leads]
    rintro same
    exact different (Option.some.inj (Except.ok.inj same)).symm
  rw [references, Finset.filter_insert, if_neg not]
  rfl

private theorem Counted.references_le (counted : graph.Counted)
    (loaded : graph.objects object = some value) (locations : Finset Location) :
    graph.references locations object ≤ value.refcount :=
  counted.enough object value _ loaded fun _ member => (Finset.mem_filter.mp member).2

end References

/-- What has happened when the locations have given their objects up, and the objects are going
away. -/
structure Releasing (start : ObjectGraph) (location : Location) (given : Finset Location)
    (gone : Finset ObjectRef)
    (graph : ObjectGraph) : Prop where
  owned : ∀ holder ∈ given, holder ≠ location → ∃ owner ∈ gone, holder.owner = some owner
  kept : ∀ object value, start.objects object = some value → object ∉ gone →
    ∃ later, graph.objects object = some later ∧
    later.refcount + start.references given object = value.refcount ∧ 0 < later.refcount
  shape : ∀ object later, graph.objects object = some later →
    ∃ value, start.objects object = some value ∧
    later.members.length = value.members.length
  same : ∀ holder, holder ∉ given → ∀ pointer, graph.read holder = .ok pointer →
    start.read holder = .ok pointer
  spent : ∀ object ∈ gone, ∃ value, start.objects object = some value ∧
    start.references given object = value.refcount
  dying : ∀ object ∈ gone, ∀ later, graph.objects object = some later → later.refcount = 0
  destroyed : ∀ object ∈ gone, start.Destroys location object

namespace Releasing
variable {start : ObjectGraph} {given : Finset Location} {gone : Finset ObjectRef}
  {holder : Location}

private theorem refl (counted : start.Counted) (location : Location) :
    start.Releasing location ∅ ∅ start where
  owned _ member := absurd member (Finset.notMem_empty _)
  kept object value loaded _ := ⟨value, loaded, rfl, counted.positive object value loaded⟩
  shape _ later loaded := ⟨later, loaded, rfl⟩
  same _ _ _ read := read
  spent _ member := absurd member (Finset.notMem_empty _)
  dying _ member := absurd member (Finset.notMem_empty _)
  destroyed _ member := absurd member (Finset.notMem_empty _)

theorem card_le (releasing : start.Releasing location given gone graph) (counted : start.Counted) :
    gone.card ≤ start.next := by
  have old : gone ⊆ Finset.range start.next := by
    intro object member
    obtain ⟨value, loaded, -⟩ := releasing.spent object member
    exact Finset.mem_range.mpr (counted.old object value loaded)
  exact (Finset.card_le_card old).trans_eq (Finset.card_range _)

theorem pending (releasing : start.Releasing location given gone graph) (counted : start.Counted)
    (new : holder ∉ given)
    (leads : start.read holder = .ok (some object)) :
    object ∉ gone ∧ ∃ value later, start.objects object = some value ∧
    graph.objects object = some later ∧
      later.refcount + start.references given object = value.refcount ∧ 0 < later.refcount := by
  obtain ⟨value, loaded⟩ := counted.live holder object leads
  have within := counted.references_le loaded (insert holder given)
  rw [references_insert new leads] at within
  have stays : object ∉ gone := by
    intro member
    obtain ⟨other, also, spent⟩ := releasing.spent object member
    obtain rfl := Option.some.inj (loaded.symm.trans also)
    omega
  obtain ⟨later, there, count, positive⟩ := releasing.kept object value loaded stays
  exact ⟨stays, value, later, loaded, there, count, positive⟩

/-- A location gives its object up, which may be the last reference to it. -/
theorem unref (releasing : start.Releasing location given gone graph) (counted : start.Counted)
    (new : holder ∉ given)
    (leads : start.read holder = .ok (some object))
    (origin : holder = location ∨ ∃ owner ∈ gone, holder.owner = some owner)
    {later : OwningObject} (there : graph.objects object = some later) :
    start.Releasing location (insert holder given) (if later.refcount - 1 = 0 then insert object gone else gone)
      (graph.store object { later with refcount := later.refcount - 1 }) := by
  obtain ⟨stays, value, same, loaded, also, count, positive⟩ := releasing.pending counted new leads
  obtain rfl := Option.some.inj (there.symm.trans also)
  have one := references_insert new leads
  have grows : gone ⊆ if later.refcount - 1 = 0 then insert object gone else gone := by
    split
    · exact Finset.subset_insert _ _
    · exact Finset.Subset.refl _
  have split : ∀ another, another ∈ (if later.refcount - 1 = 0 then insert object gone else gone) →
      another ∈ gone ∨ another = object ∧ later.refcount - 1 = 0 := by
    intro another member
    split at member
    next last => exact (Finset.mem_insert.mp member).symm.imp_right fun equal => ⟨equal, last⟩
    next => exact Or.inl member
  have owned : ∀ other ∈ insert holder given, other ≠ location →
    ∃ owner ∈ gone, other.owner = some owner := by
    intro other member different
    rcases Finset.mem_insert.mp member with rfl | earlier
    · exact origin.resolve_left different
    · exact releasing.owned other earlier different
  refine ⟨?_, ?_, ?_, ?_, ?_, ?_, ?_⟩
  · intro other member different
    obtain ⟨owner, inside, owns⟩ := owned other member different
    exact ⟨owner, grows inside, owns⟩
  · intro another held before absent
    by_cases equal : another = object
    · subst equal
      obtain rfl := Option.some.inj (loaded.symm.trans before)
      have more : ¬later.refcount - 1 = 0 := by
        intro last
        rw [if_pos last] at absent
        exact absent (Finset.mem_insert_self _ _)
      refine ⟨_, store_same _ _ _, ?_, Nat.pos_of_ne_zero more⟩
      simp only
      omega
    · obtain ⟨now, found, sum, alive⟩ :=
        releasing.kept another held before fun member => absent (grows member)
      refine ⟨now, by rw [store_other _ equal, found], ?_, alive⟩
      rw [references_insert_other leads equal, sum]
  · intro another now found
    by_cases equal : another = object
    · subst equal
      rw [store_same] at found
      obtain rfl := Option.some.inj found
      exact releasing.shape another later there
    · rw [store_other _ equal] at found
      exact releasing.shape another now found
  · intro other absent pointer read
    rw [read_recount there] at read
    exact releasing.same other (fun member => absent (Finset.mem_insert_of_mem member)) pointer read
  · intro another member
    rcases split another member with earlier | ⟨rfl, last⟩
    · obtain ⟨held, before, spent⟩ := releasing.spent another earlier
      have different : another ≠ object := fun equal => stays (equal ▸ earlier)
      exact ⟨held, before, by rw [references_insert_other leads different, spent]⟩
    · exact ⟨value, loaded, by omega⟩
  · intro another member now found
    rcases split another member with earlier | ⟨rfl, last⟩
    · have different : another ≠ object := fun equal => stays (equal ▸ earlier)
      rw [store_other _ different] at found
      exact releasing.dying another earlier now found
    · rw [store_same] at found
      obtain rfl := Option.some.inj found
      exact last
  · intro another member
    rcases split another member with earlier | ⟨rfl, last⟩
    · exact releasing.destroyed another earlier
    · refine .spent ((insert holder given).filter fun other => start.read other = .ok (some another)) loaded
        (fun other member => (Finset.mem_filter.mp member).2) ?_ ?_ ?_
      · have enough : start.references (insert holder given) another = value.refcount := by omega
        exact enough.ge
      · intro other member different
        obtain ⟨owner, -, owns⟩ := owned other (Finset.mem_filter.mp member).1 different
        exact owns ▸ Option.some_ne_none owner
      · intro other member different owner owns
        obtain ⟨first, inside, also⟩ := owned other (Finset.mem_filter.mp member).1 different
        obtain rfl := Option.some.inj (owns.symm.trans also)
        exact releasing.destroyed owner inside

/-- A location that has given its object up, or one that is null, is cleared. -/
theorem write (releasing : start.Releasing location given gone graph)
    (writes : graph.Writes holder pointer after)
    (cleared : holder ∉ given → start.read holder = .ok pointer) :
    start.Releasing location given gone after where
  owned := releasing.owned
  kept object value loaded stays := by
    obtain ⟨later, there, count, positive⟩ := releasing.kept object value loaded stays
    obtain ⟨last, found, same, -⟩ := writes.objects object later there
    exact ⟨last, found, same ▸ count, same ▸ positive⟩
  shape object last found := by
    cases there : graph.objects object with
    | none => cases (writes.missing object there).symm.trans found
    | some later =>
      obtain ⟨value, loaded, length⟩ := releasing.shape object later there
      obtain ⟨also, again, -, same⟩ := writes.objects object later there
      obtain rfl := Option.some.inj (again.symm.trans found)
      exact ⟨value, loaded, same.trans length⟩
  same other absent pointer read := by
    by_cases equal : other = holder
    · subst equal
      obtain rfl := Except.ok.inj (writes.written.symm.trans read)
      exact cleared absent
    · rw [writes.others other equal] at read
      exact releasing.same other absent pointer read
  spent := releasing.spent
  dying object member last found := by
    cases there : graph.objects object with
    | none => cases (writes.missing object there).symm.trans found
    | some later =>
      obtain ⟨also, again, same, -⟩ := writes.objects object later there
      obtain rfl := Option.some.inj (again.symm.trans found)
      exact same.trans (releasing.dying object member later there)
  destroyed := releasing.destroyed

private theorem free (releasing : start.Releasing location given gone graph)
    (member : object ∈ gone) :
    start.Releasing location given gone (graph.free object) where
  owned := releasing.owned
  kept another value loaded stays := by
    obtain ⟨later, there, facts⟩ := releasing.kept another value loaded stays
    have different : another ≠ object := fun equal => stays (equal ▸ member)
    exact ⟨later, by rw [free_other _ different, there], facts⟩
  shape another later found := by
    by_cases equal : another = object
    · subst equal
      cases (free_same graph another).symm.trans found
    · rw [free_other _ equal] at found
      exact releasing.shape another later found
  same holder absent pointer read := releasing.same holder absent pointer (read_free read)
  spent := releasing.spent
  dying another inside later found := by
    by_cases equal : another = object
    · subst equal
      cases (free_same graph another).symm.trans found
    · rw [free_other _ equal] at found
      exact releasing.dying another inside later found
  destroyed := releasing.destroyed

end Releasing

structure Waiting (location : Location) (given : Finset Location) (gone : Finset ObjectRef)
    (graph : ObjectGraph) : Prop where
  given : location ∈ given
  pending : ∃ object ∈ gone, (∃ value, graph.objects object = some value) ∧
    ∀ pointer, graph.read location = .ok pointer → pointer = some object

/-- An object with its last reference gone joins those that are going away. -/
theorem Waiting.enter {start : ObjectGraph} {given : Finset Location} {gone : Finset ObjectRef}
    {holder : Location}
    (waiting : holder ≠ location → Waiting location given gone graph)
    (releasing : start.Releasing location given gone graph)
    (new : holder ∉ given) (leads : start.read holder = .ok (some object))
    (loaded : graph.objects object = some value) (count : Nat) :
    Waiting location (insert holder given) (insert object gone)
      (graph.store object { value with refcount := count }) := by
  by_cases top : holder = location
  · subst top
    refine ⟨Finset.mem_insert_self _ _, object, Finset.mem_insert_self _ _,
      ⟨_, store_same _ _ _⟩, ?_⟩
    intro pointer read
    rw [read_recount loaded] at read
    exact Except.ok.inj ((releasing.same _ new pointer read).symm.trans leads)
  · obtain ⟨inside, pending, member, there, points⟩ := waiting top
    refine ⟨Finset.mem_insert_of_mem inside, pending, Finset.mem_insert_of_mem member,
      store_grows _ _ there, ?_⟩
    intro pointer read
    rw [read_recount loaded] at read
    exact points pointer read

/-- More has gone away, and nothing of what was going away before has been touched, but that members
of some of it may have been cleared. -/
structure Advances (start : ObjectGraph) (location : Location) (own : ObjectRef → Prop)
    (given : Finset Location)
    (gone : Finset ObjectRef) (graph : ObjectGraph) (further : Finset Location)
    (more : Finset ObjectRef) (after : ObjectGraph) : Prop where
  releasing : start.Releasing location further more after
  locations : given ⊆ further
  objects : gone ⊆ more
  fresh : ∀ holder ∈ further, holder ∉ given →
    ∃ owner ∈ more, holder.owner = some owner ∧ (own owner ∨ owner ∉ gone)
  freed : ∀ object ∈ more, object ∉ gone → after.objects object = none ∧
    location.owner ≠ some object ∧
    ∀ index pointed, start.read (.member object index) = .ok (some pointed) →
      .member object index ∈ further
  still : ∀ object ∈ gone, ∀ value, graph.objects object = some value →
    ∃ later, after.objects object = some later
  missing : ∀ object, graph.objects object = none → after.objects object = none
  frame : ∀ holder, (holder ∈ further → holder ∈ given) →
    ∀ pointer, after.read holder = .ok pointer → graph.read holder = .ok pointer

namespace Advances
variable {start middle : ObjectGraph} {own : ObjectRef → Prop}
  {given further last : Finset Location} {gone more most : Finset ObjectRef}

private theorem trans (first : start.Advances location own given gone graph further more middle)
    (second : start.Advances location own further more middle last most after) :
    start.Advances location own given gone graph last most after where
  releasing := second.releasing
  locations := first.locations.trans second.locations
  objects := first.objects.trans second.objects
  fresh holder member new := by
    by_cases early : holder ∈ further
    · obtain ⟨owner, inside, owns, origin⟩ := first.fresh holder early new
      exact ⟨owner, second.objects inside, owns, origin⟩
    · obtain ⟨owner, inside, owns, origin⟩ := second.fresh holder member early
      exact ⟨owner, inside, owns,
        origin.imp_right fun absent earlier => absent (first.objects earlier)⟩
  freed object member new := by
    by_cases early : object ∈ more
    · obtain ⟨gone, other, members⟩ := first.freed object early new
      exact ⟨second.missing object gone, other,
        fun index pointed leads => second.locations (members index pointed leads)⟩
    · exact second.freed object member early
  still object member value loaded := by
    obtain ⟨later, there⟩ := first.still object member value loaded
    exact second.still object (first.objects member) later there
  missing object none := second.missing object (first.missing object none)
  frame holder stays pointer read := by
    refine first.frame holder (fun early => stays (second.locations early)) pointer ?_
    exact second.frame holder (fun late => first.locations (stays late)) pointer read

theorem refl (releasing : start.Releasing location given gone graph) (own : ObjectRef → Prop) :
    start.Advances location own given gone graph given gone graph where
  releasing := releasing
  locations := Finset.Subset.refl _
  objects := Finset.Subset.refl _
  fresh _ member new := absurd member new
  freed _ member new := absurd member new
  still _ _ value loaded := ⟨value, loaded⟩
  missing _ none := none
  frame _ _ _ read := read

private theorem waiting (advances : start.Advances location own given gone graph further more after)
    (waiting : Waiting location given gone graph) : Waiting location further more after where
  given := advances.locations waiting.given
  pending := by
    obtain ⟨object, member, ⟨value, loaded⟩, points⟩ := waiting.pending
    refine ⟨object, advances.objects member, advances.still object member value loaded, ?_⟩
    exact fun pointer read => points pointer (advances.frame location (fun _ => waiting.given) pointer read)

private theorem write {holder : Location} {pointer : Option ObjectRef}
    (advances : start.Advances location own given gone graph further more middle)
    (writes : middle.Writes holder pointer after)
    (cleared : holder ∉ further → start.read holder = .ok pointer)
    (quiet : (holder ∈ further → holder ∈ given) → graph.read holder = .ok pointer) :
    start.Advances location own given gone graph further more after where
  releasing := advances.releasing.write writes cleared
  locations := advances.locations
  objects := advances.objects
  fresh := advances.fresh
  freed object member new := by
    obtain ⟨gone, other, members⟩ := advances.freed object member new
    exact ⟨writes.missing object gone, other, members⟩
  still object member value loaded := by
    obtain ⟨later, there⟩ := advances.still object member value loaded
    obtain ⟨last, found, -⟩ := writes.objects object later there
    exact ⟨last, found⟩
  missing object none := writes.missing object (advances.missing object none)
  frame other stays found read := by
    by_cases equal : other = holder
    · subst equal
      obtain rfl := Except.ok.inj (writes.written.symm.trans read)
      exact quiet stays
    · rw [writes.others other equal] at read
      exact advances.frame other stays found read

private theorem recount (loaded : graph.objects object = some value) {count : Nat}
    (released : start.Releasing location given gone (graph.store object { value with refcount := count })) :
    start.Advances location own given gone graph given gone
      (graph.store object { value with refcount := count }) where
  releasing := released
  locations := Finset.Subset.refl _
  objects := Finset.Subset.refl _
  fresh _ inside absent := absurd inside absent
  freed _ inside absent := absurd inside absent
  still _ _ found there := store_grows _ _ ⟨found, there⟩
  missing _ absent := store_missing loaded _ absent
  frame _ _ _ read := by rwa [read_recount loaded] at read

/-- The storage of an object is given back, with all its members cleared. -/
theorem free {count : Nat} (stays : object ∉ gone) (loaded : graph.objects object = some value)
    (advances : start.Advances location (· = object) given (insert object gone)
      (graph.store object { value with refcount := count }) further more middle)
    (unowned : location.owner ≠ some object)
    (cleared : ∀ index pointed, start.read (.member object index) = .ok (some pointed) →
      .member object index ∈ further) :
    start.Advances location (fun _ => False) given gone graph further more
      (middle.free object) where
  releasing := advances.releasing.free (advances.objects (Finset.mem_insert_self _ _))
  locations := advances.locations
  objects := (Finset.subset_insert _ _).trans advances.objects
  fresh other late absent := by
    obtain ⟨owner, inside, owns, apart⟩ := advances.fresh other late absent
    refine ⟨owner, inside, owns, Or.inr ?_⟩
    rcases apart with rfl | apart
    · exact stays
    · exact fun earlier => apart (Finset.mem_insert_of_mem earlier)
  freed another inside absent := by
    by_cases equal : another = object
    · subst equal
      exact ⟨free_same _ _, unowned, cleared⟩
    · have unseen : another ∉ insert object gone :=
        fun early => (Finset.mem_insert.mp early).elim equal absent
      obtain ⟨none, other, members⟩ := advances.freed another inside unseen
      exact ⟨by rw [free_other _ equal, none], other, members⟩
  still another inside found there := by
    have different : another ≠ object := fun equal => stays (equal ▸ inside)
    obtain ⟨next, also⟩ := store_grows object { value with refcount := count } ⟨found, there⟩
    obtain ⟨later, remains⟩ := advances.still another (Finset.mem_insert_of_mem inside) next also
    exact ⟨later, by rw [free_other _ different, remains]⟩
  missing another none := by
    by_cases equal : another = object
    · exact equal ▸ free_same _ _
    · rw [free_other _ equal]
      exact advances.missing another (store_missing loaded _ none)
  frame other unchanged pointer read := by
    have before := advances.frame other unchanged pointer (read_free read)
    rwa [read_recount loaded] at before

end Advances

def Lost (start : ObjectGraph) (location : Location) (fault : GraphFault) : Prop :=
  fault = .verify ∧ ∃ owner, location.owner = some owner ∧ start.Destroys location owner

def Specified (start : ObjectGraph) (location : Location) (rounds : Nat) : Prop :=
  ∀ {given gone graph holder object}, start.Releasing location given gone graph → holder ∉ given →
    start.read holder = .ok (some object) → (holder = location ∨ ∃ owner ∈ gone,
      holder.owner = some owner) →
    (holder ≠ location → Waiting location given gone graph) → start.next < rounds + gone.card →
    Yields (start.Lost location) (unref rounds graph object) fun after =>
      ∃ further more, start.Advances location (fun _ => False) (insert holder given) gone graph
        further more after

theorem clearWith_none (unref : ObjectGraph → ObjectRef → Except GraphFault ObjectGraph)
    (read : graph.read location = .ok none) :
    clearWith unref graph location = graph.write location none := by
  simp only [clearWith, read, bind, Except.bind]

theorem clearWith_some (unref : ObjectGraph → ObjectRef → Except GraphFault ObjectGraph)
    (read : graph.read location = .ok (some object)) :
    clearWith unref graph location = unref graph object >>=
      fun graph => graph.write location none := by
  simp only [clearWith, read, bind, Except.bind]

private theorem unref_more {rounds : Nat} (loaded : graph.objects object = some value)
    (positive : 0 < value.refcount)
    (more : ¬value.refcount - 1 = 0) :
    unref (rounds + 1) graph object = .ok (graph.store object { value with refcount := value.refcount - 1 }) := by
  simp only [unref, load_ok.mpr loaded, bind, Except.bind, gt_iff_lt, if_pos positive, if_neg more]

private theorem unref_last {rounds : Nat} (loaded : graph.objects object = some value)
    (positive : 0 < value.refcount)
    (last : value.refcount - 1 = 0) :
    unref (rounds + 1) graph object =
      ((List.range value.members.length).reverse.map (Location.member object)).foldlM
        (clearWith (unref rounds))
        (graph.store object { value with refcount := value.refcount - 1 }) >>=
          fun graph => .ok (graph.free object) := by
  simp only [unref, load_ok.mpr loaded, bind, Except.bind, gt_iff_lt, if_pos positive, if_pos last]

section Unref
variable {start : ObjectGraph} {given : Finset Location} {gone : Finset ObjectRef} {rounds : Nat}

/-- The location itself cannot be cleared a second time: its object is still going away. -/
theorem unref_again (releasing : start.Releasing location given gone graph)
    (waiting : Waiting location given gone graph)
    (read : graph.read location = .ok pointer) (some : 0 < rounds) :
    clearWith (unref rounds) graph location = .error .verify := by
  obtain ⟨object, member, ⟨value, loaded⟩, points⟩ := waiting.pending
  obtain rfl := points pointer read
  obtain ⟨fewer, rfl⟩ := Nat.exists_eq_succ_of_ne_zero some.ne'
  have spent := releasing.dying object member value loaded
  simp only [clearWith, read, unref, load_ok.mpr loaded, spent, bind, Except.bind, gt_iff_lt,
    Nat.lt_irrefl, if_false]

theorem Releasing.readable (releasing : start.Releasing location given gone graph)
    (loaded : graph.objects object = some value)
    (before : start.read (.member object index) = .ok found) :
    ∃ pointer, graph.read (.member object index) = .ok pointer := by
  obtain ⟨held, there, length⟩ := releasing.shape object value loaded
  obtain ⟨also, again, inside⟩ := read_member.mp before
  obtain rfl := Option.some.inj (there.symm.trans again)
  have within : index < value.members.length :=
    length.symm ▸ (List.getElem?_eq_some_iff.mp inside).1
  exact ⟨_, read_member.mpr ⟨value, loaded, List.getElem?_eq_getElem within⟩⟩

private theorem Releasing.member_iff (releasing : start.Releasing location given gone graph)
    (loaded : graph.objects object = some value) :
    index ∈ (List.range value.members.length).reverse ↔
    ∃ found, start.read (.member object index) = .ok found := by
  obtain ⟨first, there, length⟩ := releasing.shape object value loaded
  rw [List.mem_reverse, List.mem_range, length]
  constructor
  · intro within
    exact ⟨_, read_member.mpr ⟨first, there, List.getElem?_eq_getElem within⟩⟩
  · rintro ⟨found, read⟩
    obtain ⟨also, again, inside⟩ := read_member.mp read
    obtain rfl := Option.some.inj (there.symm.trans again)
    exact (List.getElem?_eq_some_iff.mp inside).1

/-- Of the members of an object that stays, only the location itself may have given its object
up. -/
theorem Releasing.member_new {holder : Location}
    (releasing : start.Releasing location given gone graph) (stays : object ∉ gone)
    (origin : holder = location ∨ ∃ owner ∈ gone, holder.owner = some owner)
    (inside : .member object index ∈ insert holder given) :
    .member object index = location := by
  by_contra different
  rcases Finset.mem_insert.mp inside with rfl | early
  · obtain ⟨owner, member, owns⟩ := origin.resolve_left different
    obtain rfl := Option.some.inj owns
    exact stays member
  · obtain ⟨owner, member, owns⟩ := releasing.owned _ early different
    obtain rfl := Option.some.inj owns
    exact stays member

private theorem clear_member (specified : start.Specified location rounds) (counted : start.Counted)
    (releasing : start.Releasing location given gone graph)
    (waiting : Waiting location given gone graph) (member : object ∈ gone)
    (loaded : graph.objects object = some value)
    (before : start.read (.member object index) = .ok found)
    (first : .member object index ∈ given → .member object index = location)
    (enough : start.next < rounds + gone.card) :
    Yields (start.Lost location) (clearWith (unref rounds) graph (.member object index)) fun after =>
      ∃ further more, start.Advances location (· = object) given gone graph further more after ∧
        (.member object index ≠ location ∧ ∀ pointed, found = some pointed →
          .member object index ∈ further) ∧
        ∀ holder ∈ further, holder ∉ given → holder.owner = some object →
          holder = .member object index := by
  obtain ⟨pointer, read⟩ := releasing.readable loaded before
  by_cases again : .member object index = location
  · rw [← again] at waiting
    have few := releasing.card_le counted
    have positive : 0 < rounds := by omega
    rw [unref_again (again ▸ releasing) waiting read positive]
    exact .error ⟨rfl, object, by rw [← again, Location.owner], releasing.destroyed object member⟩
  · have new : .member object index ∉ given := fun earlier => again (first earlier)
    obtain rfl := Except.ok.inj (before.symm.trans (releasing.same _ new pointer read))
    cases found with
    | none =>
      obtain ⟨after, writes⟩ := write_ok read none
      have cleared := (Advances.refl releasing (· = object)).write writes (fun _ => before)
        (fun _ => read)
      rw [clearWith_none _ read, writes.done]
      exact .ok ⟨given, gone, cleared, ⟨again, nofun⟩,
        fun holder inside absent => absurd inside absent⟩
    | some target =>
      rw [clearWith_some _ read]
      refine (specified releasing new before (Or.inr ⟨object, member, rfl⟩) (fun _ => waiting) enough).bind ?_
      rintro middle ⟨further, more, advances⟩
      obtain ⟨later, there⟩ := advances.still object member value loaded
      obtain ⟨left, still⟩ := advances.releasing.readable there before
      obtain ⟨after, writes⟩ := write_ok still none
      have inside : .member object index ∈ further :=
        advances.locations (Finset.mem_insert_self _ _)
      have owns : ∀ holder ∈ further, holder ∉ given → holder = .member object index ∨
          ∃ owner ∈ more, holder.owner = some owner ∧ owner ∉ gone := by
        intro holder late absent
        by_cases equal : holder = .member object index
        · exact Or.inl equal
        · have unseen : holder ∉ insert (.member object index) given :=
            fun early => (Finset.mem_insert.mp early).elim equal absent
          obtain ⟨owner, there, owns, origin⟩ := advances.fresh holder late unseen
          exact Or.inr ⟨owner, there, owns, origin.resolve_left id⟩
      have widened : start.Advances location (· = object) given gone graph further more middle := {
        releasing := advances.releasing
        locations := (Finset.subset_insert _ _).trans advances.locations
        objects := advances.objects
        fresh holder late absent := by
          rcases owns holder late absent with rfl | ⟨owner, there, owns, origin⟩
          · exact ⟨object, advances.objects member, rfl, Or.inl rfl⟩
          · exact ⟨owner, there, owns, Or.inr origin⟩
        freed := advances.freed
        still := advances.still
        missing := advances.missing
        frame holder stays := advances.frame holder fun late =>
          Finset.mem_insert_of_mem (stays late)
      }
      have cleared := widened.write writes (fun absent => absurd inside absent)
        (fun stays => absurd (stays inside) new)
      rw [writes.done]
      refine .ok ⟨further, more, cleared, ⟨again, fun _ _ => inside⟩,
        fun holder late absent owner => ?_⟩
      refine (owns holder late absent).resolve_right ?_
      rintro ⟨other, -, owns, apart⟩
      obtain rfl := Option.some.inj (owner.symm.trans owns)
      exact apart member

private theorem clear_members (specified : start.Specified location rounds)
    (counted : start.Counted) {indices : List Nat}
    (distinct : indices.Nodup) (releasing : start.Releasing location given gone graph)
    (waiting : Waiting location given gone graph)
    (member : object ∈ gone) (loaded : graph.objects object = some value)
    (readable : ∀ index ∈ indices, ∃ found, start.read (.member object index) = .ok found)
    (first : ∀ index ∈ indices, .member object index ∈ given → .member object index = location)
    (enough : start.next < rounds + gone.card) :
    Yields (start.Lost location) ((indices.map (Location.member object)).foldlM (clearWith (unref rounds)) graph) fun after =>
      ∃ further more, start.Advances location (· = object) given gone graph further more after ∧
        ∀ index ∈ indices, .member object index ≠ location ∧
          ∀ pointed, start.read (.member object index) = .ok (some pointed) →
            .member object index ∈ further := by
  induction indices generalizing given gone graph value with
  | nil =>
      exact .ok ⟨given, gone, .refl releasing _, fun _ inside => absurd inside List.not_mem_nil⟩
  | cons index indices ih =>
    obtain ⟨absent, later⟩ := List.nodup_cons.mp distinct
    obtain ⟨found, before⟩ := readable index List.mem_cons_self
    rw [List.map_cons, List.foldlM_cons]
    refine (clear_member specified counted releasing waiting member loaded before (first index List.mem_cons_self) enough).bind ?_
    rintro middle ⟨further, more, advances, ⟨other, handed⟩, only⟩
    obtain ⟨now, there⟩ := advances.still object member value loaded
    have grown := Finset.card_le_card advances.objects
    refine (ih later advances.releasing (advances.waiting waiting) (advances.objects member) there
      (fun position inside => readable position (List.mem_cons_of_mem _ inside)) ?_
        (by omega)).mono ?_
    · intro position inside early
      by_cases old : Location.member object position ∈ given
      · exact first position (List.mem_cons_of_mem _ inside) old
      · obtain ⟨-, rfl⟩ := Location.member.inj (only _ early old rfl)
        exact absurd inside absent
    · rintro after ⟨last, most, advances', cleared⟩
      refine ⟨last, most, advances.trans advances', fun position inside => ?_⟩
      rcases List.mem_cons.mp inside with rfl | behind
      · refine ⟨other, fun pointed leads => advances'.locations (handed pointed ?_)⟩
        exact Except.ok.inj (before.symm.trans leads)
      · exact cleared position behind

private theorem Specified.succ (specified : start.Specified location rounds)
    (counted : start.Counted)
    (readable : ∃ found, start.read location = .ok found) :
    start.Specified location (rounds + 1) := by
  intro given gone graph holder object releasing new leads origin waiting enough
  obtain ⟨stays, held, value, before, loaded, count, positive⟩ :=
    releasing.pending counted new leads
  have released := releasing.unref counted new leads origin loaded
  by_cases last : value.refcount - 1 = 0
  · rw [if_pos last] at released
    have waits := Waiting.enter waiting releasing new leads loaded (value.refcount - 1)
    have distinct : (List.range value.members.length).reverse.Nodup :=
      List.nodup_reverse.mpr List.nodup_range
    have many : start.next < rounds + (insert object gone).card := by
      rw [Finset.card_insert_of_notMem stays]
      omega
    rw [unref_last loaded positive last]
    refine (clear_members specified counted distinct released waits (Finset.mem_insert_self _ _) (store_same _ _ _)
      (fun index => (releasing.member_iff loaded).mp)
        (fun index _ => releasing.member_new stays origin) many).bind ?_
    rintro middle ⟨further, more, advances, cleared⟩
    have unowned : location.owner ≠ some object := by
      intro owns
      cases location with
      | named name => cases owns
      | member owner index =>
        obtain rfl := Option.some.inj owns
        exact (cleared index ((releasing.member_iff loaded).mpr readable)).1 rfl
    refine .ok ⟨further, more, advances.free stays loaded unowned ?_⟩
    intro index pointed leads
    exact (cleared index ((releasing.member_iff loaded).mpr ⟨_, leads⟩)).2 pointed leads
  · rw [if_neg last] at released
    rw [unref_more loaded positive last]
    exact .ok ⟨_, _, .recount loaded released⟩

private theorem specified (counted : start.Counted)
    (readable : ∃ found, start.read location = .ok found) (rounds : Nat) :
    start.Specified location rounds := by
  induction rounds with
  | zero =>
    intro given gone graph holder object releasing new leads origin waiting enough
    have few := releasing.card_le counted
    omega
  | succ rounds ih => exact ih.succ counted readable

end Unref

private theorem Releasing.read_kept {start : ObjectGraph} {given : Finset Location}
    {gone : Finset ObjectRef}
    (releasing : start.Releasing location given gone graph) (before : start.read other = .ok found)
    (stays : ∀ owner ∈ gone, other.owner ≠ some owner) :
    ∃ pointer, graph.read other = .ok pointer := by
  cases other with
  | named name => exact ⟨_, rfl⟩
  | member owner index =>
    obtain ⟨value, loaded, -⟩ := read_member.mp before
    obtain ⟨later, there, -⟩ :=
      releasing.kept owner value loaded fun member => stays owner member rfl
    exact releasing.readable there before

section Assign
variable {start : ObjectGraph} {target source : Location} {old wanted : Option ObjectRef}

structure Cleared (start : ObjectGraph) (target : Location) (given : Finset Location)
    (gone : Finset ObjectRef) (graph : ObjectGraph) : Prop where
  releasing : start.Releasing target given gone graph
  null : graph.read target = .ok none
  unowned : ∀ object ∈ gone, target.owner ≠ some object
  freed : ∀ object ∈ gone, graph.objects object = none
  exact : ∀ object, object ∈ gone ↔ start.Destroys target object
  kept : ∀ holder pointer, holder ≠ target → (∀ owner ∈ gone, holder.owner ≠ some owner) →
    start.read holder = .ok pointer →
    graph.read holder = .ok pointer

/-- The least set is no larger than what has gone away, all of whose members have given their
objects up. -/
theorem Advances.closed {own : ObjectRef → Prop} {given : Finset Location} {gone : Finset ObjectRef}
    (advances : start.Advances target own {target} ∅ start given gone graph)
    (destroys : start.Destroys target object) : object ∈ gone := by
  induction destroys with
  | @spent object value holders loaded lead count owned _ ih =>
    by_contra stays
    obtain ⟨later, -, sum, positive⟩ := advances.releasing.kept object value loaded stays
    have inside : holders ⊆ given.filter fun holder => start.read holder = .ok (some object) := by
      intro holder member
      refine Finset.mem_filter.mpr ⟨?_, lead holder member⟩
      by_cases equal : holder = target
      · exact equal ▸ advances.locations (Finset.mem_singleton_self _)
      · obtain ⟨owner, owns⟩ := Option.ne_none_iff_exists'.mp (owned holder member equal)
        obtain ⟨-, -, members⟩ :=
          advances.freed owner (ih holder member equal owner owns) (Finset.notMem_empty owner)
        cases holder with
        | named name => cases owns
        | member first index =>
          obtain rfl := Option.some.inj owns
          exact members index object (lead _ member)
    have many : holders.card ≤ start.references given object := Finset.card_le_card inside
    omega

private theorem clear_spec (counted : start.Counted)
    (points : start.read target = .ok (some object)) :
    Yields (start.Lost target) (start.clear target) fun graph => ∃ given gone, target ∈ given ∧
    start.Cleared target given gone graph := by
  have released := specified counted ⟨_, points⟩ (start.next + 1) (.refl counted target)
    (Finset.notMem_empty target) points (Or.inl rfl)
    (fun other => absurd rfl other) (by rw [Finset.card_empty]; omega)
  unfold clear
  rw [clearWith_some _ points]
  refine released.bind ?_
  rintro middle ⟨given, gone, advances⟩
  have inside : target ∈ given := advances.locations (Finset.mem_insert_self _ _)
  have unowned : ∀ object ∈ gone, target.owner ≠ some object :=
    fun object member => (advances.freed object member (Finset.notMem_empty object)).2.1
  obtain ⟨pointer, read⟩ := advances.releasing.read_kept points fun owner member =>
    unowned owner member
  obtain ⟨after, writes⟩ := write_ok read none
  rw [writes.done]
  refine .ok ⟨given, gone, inside, {
    releasing := advances.releasing.write writes fun absent => absurd inside absent
    null := writes.written
    unowned := unowned
    freed object member := writes.missing object (advances.freed object member (Finset.notMem_empty object)).1
    exact object := ⟨advances.releasing.destroyed object, advances.closed⟩
    kept holder pointer different stays before := ?_
  }⟩
  have absent : holder ∉ given := by
    intro member
    obtain ⟨owner, there, owns⟩ := advances.releasing.owned holder member different
    exact stays owner there owns
  obtain ⟨now, found⟩ := advances.releasing.read_kept before stays
  obtain rfl := Except.ok.inj ((advances.releasing.same holder absent now found).symm.trans before)
  rw [writes.others holder different, found]

/-- The target points to what the source pointed to, and that has not been destroyed. -/
def Delivers (assigned : Except GraphFault ObjectGraph) (target : Location)
    (pointer : Option ObjectRef) : Prop :=
  ∃ after, assigned = .ok after ∧ after.read target = .ok pointer ∧
    ∀ object, pointer = some object → after.objects object ≠ none

private theorem Delivers.unique {assigned : Except GraphFault ObjectGraph}
    {first second : Option ObjectRef} (one : Delivers assigned target first)
    (two : Delivers assigned target second) : first = second := by
  obtain ⟨after, done, read, -⟩ := one
  obtain ⟨also, again, read', -⟩ := two
  obtain rfl := Except.ok.inj (done.symm.trans again)
  exact Except.ok.inj (read.symm.trans read')

def finish (source target : Location) (graph : ObjectGraph) :
    Assignment → Except GraphFault ObjectGraph
  | .copy => do
    let pointer ← graph.read source
    let graph ← graph.write target pointer
    graph.refPointer target
  | .move => do
    let pointer ← graph.read source
    let graph ← graph.write source none
    graph.write target pointer

private theorem assign_eq (graph : ObjectGraph) (target source : Location) (kind : Assignment) :
    graph.assign target source kind = graph.clear target >>=
      fun graph => graph.finish source target kind := by
  cases kind <;> rfl

private theorem refPointer_delivers (read : graph.read target = .ok wanted)
    (live : ∀ object, wanted = some object → ∃ value, graph.objects object = some value ∧
      0 < value.refcount) :
    Delivers (graph.refPointer target) target wanted := by
  cases wanted with
  | none => exact ⟨graph, by simp only [refPointer, read, bind, Except.bind], read, nofun⟩
  | some object =>
    obtain ⟨value, loaded, positive⟩ := live object rfl
    refine ⟨graph.store object { value with refcount := value.refcount + 1 }, ?_, ?_, ?_⟩
    · simp only [refPointer, read, ref, load_ok.mpr loaded, bind, Except.bind]
      exact if_pos positive
    · rw [read_recount loaded, read]
    · rintro also same
      obtain rfl := Option.some.inj same
      rw [store_same]
      exact Option.some_ne_none _

private theorem finish_delivers (kind : Assignment) (there : graph.read target = .ok old)
    (read : graph.read source = .ok wanted)
    (live : ∀ object, wanted = some object → ∃ value, graph.objects object = some value ∧
      0 < value.refcount) :
    Delivers (graph.finish source target kind) target wanted := by
  cases kind with
  | copy =>
    obtain ⟨middle, writes⟩ := write_ok there wanted
    have still : ∀ object, wanted = some object →
      ∃ value, middle.objects object = some value ∧ 0 < value.refcount := by
      intro object same
      obtain ⟨value, loaded, positive⟩ := live object same
      obtain ⟨later, found, count, -⟩ := writes.objects object value loaded
      exact ⟨later, found, count ▸ positive⟩
    simp only [finish, read, writes.done, bind, Except.bind]
    exact refPointer_delivers writes.written still
  | move =>
    obtain ⟨middle, taken⟩ := write_ok read none
    have reachable : ∃ found, middle.read target = .ok found := by
      by_cases same : target = source
      · exact ⟨none, same ▸ taken.written⟩
      · exact ⟨old, (taken.others target same).trans there⟩
    obtain ⟨found, clear⟩ := reachable
    obtain ⟨after, writes⟩ := write_ok clear wanted
    simp only [finish, read, taken.done, bind, Except.bind]
    refine ⟨after, writes.done, writes.written, fun object same => ?_⟩
    obtain ⟨value, loaded, -⟩ := live object same
    obtain ⟨later, first, -⟩ := taken.objects object value loaded
    obtain ⟨last, found, -⟩ := writes.objects object later first
    rw [found]
    exact Option.some_ne_none _

private theorem finish_dangling (kind : Assignment) {fault : GraphFault}
    (dangling : graph.read source = .error fault) :
    graph.finish source target kind = .error fault := by
  cases kind <;> simp only [finish, dangling, bind, Except.bind]

/-- Neither the location nor the source is part of an object that goes away with what the location
points to. -/
def Survives (graph : ObjectGraph) (target source : Location) : Prop :=
  ∀ owner, graph.Destroys target owner → target.owner ≠ some owner ∧ source.owner ≠ some owner

/-- An assignment does what it should exactly if there is nothing to release, or source and target
are different locations that both survive the release. -/
theorem assign_delivers_iff (counted : graph.Counted) (points : graph.read target = .ok old)
    (leads : graph.read source = .ok wanted)
    (kind : Assignment) :
    Delivers (graph.assign target source kind) target wanted ↔
    old = none ∨ target ≠ source ∧ graph.Survives target source := by
  rw [assign_eq]
  cases old with
  | none =>
    obtain ⟨middle, writes⟩ := write_ok points none
    have clear : graph.clear target = .ok middle := (clearWith_none _ points).trans writes.done
    have read : middle.read source = .ok wanted := by
      by_cases same : source = target
      · subst same
        obtain rfl := Except.ok.inj (points.symm.trans leads)
        exact writes.written
      · rw [writes.others source same, leads]
    have live : ∀ object, wanted = some object →
      ∃ value, middle.objects object = some value ∧ 0 < value.refcount := by
      rintro object rfl
      obtain ⟨value, loaded⟩ := counted.live source object leads
      obtain ⟨later, found, count, -⟩ := writes.objects object value loaded
      exact ⟨later, found, count ▸ counted.positive object value loaded⟩
    rw [clear]
    exact iff_of_true (finish_delivers kind writes.written read live) (Or.inl rfl)
  | some object =>
    have cleared := clear_spec counted points
    cases done : graph.clear target with
    | error fault =>
      rw [done] at cleared
      obtain ⟨-, owner, owns, destroys⟩ := cleared
      refine iff_of_false ?_ ?_
      · rintro ⟨after, assigned, -⟩
        cases assigned
      · rintro (none | ⟨-, survives⟩)
        · cases none
        · exact (survives owner destroys).1 owns
    | ok middle =>
      rw [done] at cleared
      obtain ⟨given, gone, inside, cleared⟩ := cleared
      change Delivers (middle.finish source target kind) target wanted ↔ _
      constructor
      · intro delivers
        refine Or.inr ⟨?_, fun owner destroys => ?_⟩
        · rintro rfl
          obtain rfl := delivers.unique (finish_delivers kind cleared.null cleared.null nofun)
          cases points.symm.trans leads
        · have member := (cleared.exact owner).mpr destroys
          refine ⟨cleared.unowned owner member, fun owns => ?_⟩
          obtain ⟨after, assigned, -⟩ := delivers
          rw [finish_dangling kind (read_freed owns (cleared.freed owner member))] at assigned
          cases assigned
      · rintro (none | ⟨different, survives⟩)
        · cases none
        · have stays : ∀ owner ∈ gone, source.owner ≠ some owner :=
            fun owner member => (survives owner ((cleared.exact owner).mp member)).2
          have absent : source ∉ given := by
            intro member
            obtain ⟨owner, there, owns⟩ := cleared.releasing.owned source member different.symm
            exact stays owner there owns
          have read := cleared.kept source wanted different.symm stays leads
          refine finish_delivers kind cleared.null read ?_
          rintro object rfl
          obtain ⟨-, value, later, -, found, -, positive⟩ :=
            cleared.releasing.pending counted absent leads
          exact ⟨later, found, positive⟩

end Assign

def chain : ObjectGraph where
  objects object := [⟨1, [some 1]⟩, ⟨1, []⟩, ⟨1, []⟩][object]?
  pointers name := ([some 0, some 2][name]?).getD none
  next := 3

def chainHolder : ObjectRef → Location
  | 0 => .named 0
  | 1 => .member 0 0
  | _ => .named 1

private theorem chain_read {holder : Location} {object : ObjectRef}
    (leads : chain.read holder = .ok (some object)) :
    holder = chainHolder object ∧ object < 3 := by
  cases holder with
  | named name =>
    rcases name with _ | _ | name
    · obtain rfl := Option.some.inj (Except.ok.inj leads)
      exact ⟨rfl, by decide⟩
    · obtain rfl := Option.some.inj (Except.ok.inj leads)
      exact ⟨rfl, by decide⟩
    · cases Except.ok.inj leads
  | member owner index =>
    obtain ⟨value, loaded, there⟩ := read_member.mp leads
    rcases owner with _ | _ | _ | owner
    · obtain rfl := Option.some.inj loaded
      rcases index with _ | index
      · obtain rfl := Option.some.inj (Option.some.inj there)
        exact ⟨rfl, by decide⟩
      · cases there
    · obtain rfl := Option.some.inj loaded
      cases there
    · obtain rfl := Option.some.inj loaded
      cases there
    · cases loaded

theorem chain_counted : chain.Counted := by
  have single : ∀ object value, chain.objects object = some value → value.refcount = 1 := by
    intro object value loaded
    have member : value ∈ [⟨1, [some 1]⟩, ⟨1, []⟩, ⟨1, []⟩] := List.mem_of_getElem? loaded
    simp only [List.mem_cons, List.not_mem_nil, or_false] at member
    rcases member with rfl | rfl | rfl <;> rfl
  refine ⟨fun object value loaded => (List.getElem?_eq_some_iff.mp loaded).1, ?_, ?_, ?_⟩
  · intro object value loaded
    rw [single object value loaded]
    exact Nat.one_pos
  · intro location object leads
    obtain ⟨-, inside⟩ := chain_read leads
    exact ⟨_, List.getElem?_eq_getElem inside⟩
  · intro object value holders loaded lead
    rw [single object value loaded, Finset.card_le_one]
    intro first one second two
    rw [(chain_read (lead first one)).1, (chain_read (lead second two)).1]

/-- The first variable gets the object of the second one. -/
theorem assign_delivers_iff_chain :
    Delivers (chain.assign (.named 0) (.named 1) .copy) (.named 0) (some 2) := by
  have survives : chain.Survives (.named 0) (.named 1) := by
    intro owner destroys
    constructor <;> rintro ⟨⟩
  exact (assign_delivers_iff chain_counted rfl rfl .copy).mpr (Or.inr ⟨by decide, survives⟩)

/-- Going on to the next object of the list reads memory of the first one, which has been destroyed,
and an assignment of a variable to itself gives up what it points to. -/
theorem assign_releases : chain.Counted ∧ chain.read (.member 0 0) = .ok (some 1) ∧
    chain.read (.named 0) = .ok (some 0) ∧
    ∀ kind, (∀ after, chain.assign (.named 0) (.member 0 0) kind ≠ .ok after) ∧
      ¬Delivers (chain.assign (.named 0) (.member 0 0) kind) (.named 0) (some 1) ∧
      ¬Delivers (chain.assign (.named 0) (.named 0) kind) (.named 0) (some 0) := by
  refine ⟨chain_counted, rfl, rfl, fun kind => ?_⟩
  have dangling : ∀ after, chain.assign (.named 0) (.member 0 0) kind ≠ .ok after := by
    intro after assigned
    have stopped : ((chain.assign (.named 0) (.member 0 0) kind).bind fun after => after.read (.named 0)) = .error .dangling := by
      cases kind <;> decide
    rw [assigned] at stopped
    cases stopped
  refine ⟨dangling, fun delivers => ?_, fun delivers => ?_⟩
  · obtain ⟨after, assigned, -⟩ := delivers
    exact dangling after assigned
  · obtain ⟨after, assigned, read, -⟩ := delivers
    have null : ((chain.assign (.named 0) (.named 0) kind).bind fun after => after.read (.named 0)) = .ok none := by
      cases kind <;> decide
    rw [assigned] at null
    cases read.symm.trans null

end ObjectGraph
end PicoOs.Std
