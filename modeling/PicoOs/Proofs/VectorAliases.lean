import PicoOs.Proofs.VectorRuns

/-! References into a vector that are arguments of its own operations. They are used after
the vector has made room, and they are good as long as it did not have to move. -/

namespace PicoOs.Std
open Library Element
variable {T : Type} {type : ElementType} {inlineSize : Nat}

namespace Storage
variable {storage after : Storage T} {list : List (Element T)}

private theorem Holds.load_at {base : Nat} (holds : storage.Holds base list) {index : Nat}
    (inside : index < list.length) :
    storage.load (base + index) = .ok list[index] := by
  induction list generalizing base index with
  | nil => cases inside
  | cons element rest ih =>
    cases index with
    | zero => exact holds.load
    | succ index =>
      have later := ih holds.2.2 (Nat.lt_of_succ_lt_succ inside)
      rwa [Nat.add_assoc, Nat.add_comm 1] at later

private theorem load_put {slot index : Nat} {contents : Option (Element T)}
    (put : storage.put slot contents = .ok after)
    (other : index ≠ slot) : after.load index = storage.load index := by
  unfold Storage.put at put
  split at put
  next inside =>
    cases put
    simp only [Storage.load, Function.update_of_ne other]
  next => cases put

end Storage

namespace Vectors
variable {state middle after : Vectors T} {elements : Contents (Element T)} {id : VectorId}
  {list : List (Element T)}

def Becomes (result : Except VectorFault (Vectors T)) (id : VectorId) (values : List T) : Prop :=
  ∃ after, result = .ok after ∧ after.span id = .ok values

/-- The references into a vector stay good while room is made for so many elements: it does
not move, or its elements are left where they were. -/
def KeepsSlots (type : ElementType) (vector : Vector T) (count : Nat) : Prop :=
  count ≤ vector.capacity ∨ type.primitive = true ∧ vector.useInlineData = true

private theorem slot_injective {first second : Nat}
    (same : state.slot id first = state.slot id second) : first = second := by
  unfold slot at same
  split at same <;> cases same <;> rfl

theorem dereference_own (holds : state.Holds inlineSize elements) (here : elements id = some list)
    {index : Nat}
    (inside : index < list.length) :
    state.dereference (state.slot id index) = .ok list[index].value := by
  obtain ⟨storage, _, stored, _, filled⟩ := holds.data here
  have loaded := filled.load_at inside
  rw [Nat.zero_add] at loaded
  unfold Vector.storage at stored
  unfold slot
  split at stored
  next usesInline =>
    rw [if_pos usesInline]
    simp only [dereference, Option.some.inj stored, loaded, bind, Except.bind]
  next usesBuffer =>
    rw [if_neg usesBuffer]
    simp only [dereference, stored, loaded, bind, Except.bind]

private theorem vector_mk (state : Vectors T) (id : VectorId)
    (buffers : BufferId → Option (Storage T)) (nextBuffer : BufferId)
    (released : List BufferId) (next : Nat) (destroyed : List Nat) :
    Vectors.vector ⟨state.vectors, buffers, nextBuffer, released, next, destroyed⟩ id =
      state.vector id := rfl

private theorem place_frame {value : T} (placed : state.place id value = .ok after) :
    (∀ index, after.slot id index = state.slot id index) ∧
      ∀ slot, slot ≠ state.slot id (state.vector id).size →
      after.dereference slot = state.dereference slot := by
  obtain ⟨storage, found, placed⟩ := bind_ok.mp placed
  obtain ⟨longer, put, placed⟩ := bind_ok.mp placed
  cases placed
  unfold Vectors.data at found
  unfold setData
  split at found
  next usesInline =>
    cases found
    rw [if_pos usesInline]
    simp only [slot, vector_replace, vector_mk, usesInline, true_and, if_true, implies_true]
    intro slot other
    cases slot with
    | inlineSlot vector index =>
      simp only [dereference]
      by_cases same : vector = id
      · have elsewhere : index ≠ (state.vector id).size := fun equal => other (by rw [same, equal])
        rw [same, vector_replace]
        exact congrArg (· >>= _) (Storage.load_put put elsewhere)
      · rw [vector_other _ same, vector_mk, vector_other _ same]
    | bufferSlot buffer index => rfl
  next usesBuffer =>
    rw [if_neg usesBuffer]
    split at found
    next old stored =>
      cases found
      obtain ⟨buffer, owns, alive⟩ := Option.bind_eq_some_iff.mp stored
      simp only [owns, slot, vector_replace, vector_mk, usesBuffer, Bool.false_eq_true, if_false,
        true_and, implies_true]
      intro slot other
      cases slot with
      | inlineSlot vector index =>
        simp only [dereference]
        by_cases same : vector = id
        · rw [same, vector_replace, vector_mk]
        · rw [vector_other _ same, vector_mk]
      | bufferSlot place index =>
        have buffers : ∀ contents,
          (Vectors.replace ⟨state.vectors, Function.update state.buffers buffer (some longer),
            state.nextBuffer, state.released, state.next + 1,
              state.destroyed⟩ id contents).buffers =
            Function.update state.buffers buffer (some longer) := fun _ => rfl
        simp only [dereference, buffers]
        cases place with
        | none => rfl
        | some there =>
          by_cases same : there = buffer
          · have elsewhere : index ≠ (state.vector id).size :=
              fun equal => other (by rw [same, equal])
            simp only [same, Option.bind_some, Function.update_self, alive,
              Storage.load_put put elsewhere]
          · simp only [Option.bind_some, Function.update_of_ne same]
    next => cases found

private theorem appendSlot_within {slot : Slot} {value : T}
    (room : (state.vector id).size + 1 ≤ (state.vector id).capacity)
    (reads : state.dereference slot = .ok value) :
    state.appendSlot type id slot = state.place id value := by
  have already : state.ensureCapacity type id ((state.vector id).size + 1) = .ok state :=
    if_pos room
  simp only [appendSlot, already, reads, bind, Except.bind]

namespace Grown

private theorem kept (grown : Grown type state after id) (primitive : type.primitive = true)
    (usesInline : (state.vector id).useInlineData = true) (index : Nat) :
    after.dereference (state.slot id index) = state.dereference (state.slot id index) := by
  unfold slot
  rw [if_pos usesInline]
  simp only [dereference, grown.copied primitive usesInline]

private theorem lost (grown : Grown type state after id)
    (mode : (state.vector id).useInlineData = (state.vector id).data.isNone)
    (given : ¬(type.primitive = true ∧ (state.vector id).useInlineData = true)) {index : Nat}
    (inside : index < (state.vector id).size) :
    ¬Returns (after.dereference (state.slot id index)) := by
  unfold slot
  cases usesInline : (state.vector id).useInlineData with
  | true =>
    have moved : type.primitive = false := by
      by_contra primitive
      exact given ⟨Bool.eq_true_of_not_eq_false primitive, usesInline⟩
    simp only [if_true, dereference, Storage.load, grown.moved moved usesInline index inside]
    split <;> exact not_returns_error
  | false =>
    rw [usesInline] at mode
    cases owns : (state.vector id).data with
    | none => rw [owns] at mode; cases mode
    | some buffer =>
      simp only [Bool.false_eq_true, if_false, dereference, Option.bind_some,
        grown.gone buffer owns]
      exact not_returns_error

end Grown

namespace Holds

/-- What is left of the references into a vector when it has made room. -/
theorem own_slots (holds : state.Holds inlineSize elements) (here : elements id = some list)
    (aligned : type.primitive ∨ type.sizeOf % 4 = 0) {count : Nat}
    (allocates : Allocates type (state.vector id).capacity count) :
    ∃ middle now, state.ensureCapacity type id count = .ok middle ∧
    count ≤ (middle.vector id).capacity ∧
      now.map value = list.map value ∧
      middle.Holds inlineSize (Function.update elements id (some now)) ∧
      (KeepsSlots type (state.vector id) count → ∀ index,
        middle.dereference (state.slot id index) = state.dereference (state.slot id index) ∧
        ∀ later, state.slot id index = middle.slot id later → index = later) ∧
      (¬KeepsSlots type (state.vector id) count → ∀ index < list.length,
        ¬Returns (middle.dereference (state.slot id index))) := by
  have ⟨represents, _⟩ := holds.represented here
  by_cases room : count ≤ (state.vector id).capacity
  · have still : state.Holds inlineSize (Function.update elements id (some list)) := by
      rwa [← here, Function.update_eq_self]
    exact ⟨state, list, if_pos room, room, rfl, still,
      fun _ _ => ⟨rfl, fun _ same => slot_injective same⟩,
      fun lost => absurd (.inl room) lost⟩
  · obtain ⟨middle, now, ran, enough, moved, same, kept⟩ := holds.grow here aligned allocates
    have grown := moved (Nat.lt_of_not_le room)
    refine ⟨middle, now, ran, enough, same, kept, fun keeps index => ?_,
      fun lost index inside => ?_⟩
    · obtain ⟨primitive, usesInline⟩ := keeps.resolve_left room
      refine ⟨grown.kept primitive usesInline index, fun later same => ?_⟩
      rw [slot, slot, usesInline, grown.usesBuffer] at same
      cases same
    · exact grown.lost represents.mode (fun copied => lost (.inr copied))
        (represents.size.symm ▸ inside)

private theorem appendSlots (type : ElementType) {slots : List Slot} {values : List T}
    (holds : state.Holds inlineSize elements)
    (here : elements id = some list)
    (room : list.length + slots.length ≤ (state.vector id).capacity)
    (reads : slots.map state.dereference = values.map .ok)
    (apart : ∀ slot ∈ slots, ∀ later, slot = state.slot id later → later < list.length) :
    ∃ after now, slots.foldlM (appendSlot type id) state = .ok after ∧
    now.map value = list.map value ++ values ∧
      after.Holds inlineSize (Function.update elements id (some now)) := by
  induction slots generalizing state elements list values with
  | nil =>
    obtain rfl := List.map_eq_nil_iff.mp reads.symm
    refine ⟨state, list, rfl, by rw [List.append_nil], ?_⟩
    rwa [← here, Function.update_eq_self]
  | cons slot slots ih =>
    obtain ⟨first, values, rfl, read, reads⟩ := List.map_eq_cons_iff.mp reads.symm
    rw [List.length_cons] at room
    have size := (holds.represented here).1.size
    obtain ⟨middle, placed, capacity, longer⟩ := holds.place here (by omega) first
    obtain ⟨same, frame⟩ := place_frame placed
    have still : slots.map middle.dereference = values.map .ok := by
      rw [reads]
      refine List.map_congr_left fun other member => frame other fun last => ?_
      have old := apart other (List.mem_cons_of_mem _ member) _ last
      omega
    obtain ⟨after, now, finished, whole, kept⟩ := ih longer (Function.update_self ..)
      (by rw [List.length_append, List.length_singleton, capacity]; omega) still fun other member later equal => by
        rw [same] at equal
        have old := apart other (List.mem_cons_of_mem _ member) later equal
        rw [List.length_append]
        omega
    rw [Function.update_idem] at kept
    refine ⟨after, now, ?_, ?_, kept⟩
    · have ran : state.appendSlot type id slot = .ok middle :=
        (appendSlot_within (by omega) read.symm).trans placed
      simp only [List.foldlM_cons, ran, bind, Except.bind, finished]
    · rw [whole, List.map_append, List.append_assoc]
      rfl

private theorem appendOwn_iff (holds : state.Holds inlineSize elements)
    (here : elements id = some list)
    (aligned : type.primitive ∨ type.sizeOf % 4 = 0)
    (allocates : Allocates type (state.vector id).capacity (list.length + 1))
    {index : Nat} (inside : index < list.length) :
    Becomes (state.appendOwn type id index) id (list.map value ++ [list[index].value]) ↔
      KeepsSlots type (state.vector id) (list.length + 1) := by
  have size := (holds.represented here).1.size
  obtain ⟨middle, now, ran, room, same, kept, good, lost⟩ := holds.own_slots here aligned allocates
  constructor
  · rintro ⟨after, appended, _⟩
    by_contra moves
    rw [appendOwn, appendSlot, size, ran] at appended
    obtain ⟨_, made, appended⟩ := bind_ok.mp appended
    cases made
    obtain ⟨value, read, _⟩ := bind_ok.mp appended
    exact lost moves index inside ⟨value, read⟩
  · intro keeps
    have read := ((good keeps index).1).trans (dereference_own holds here inside)
    have length : now.length = list.length := length_of_values same
    obtain ⟨after, placed, _, longer⟩ :=
      kept.place (Function.update_self ..) (by omega) list[index].value
    rw [Function.update_idem] at longer
    refine ⟨after, ?_, ?_⟩
    · simp only [appendOwn, appendSlot, size, ran, bind, Except.bind, read, placed]
    · rw [longer.span (Function.update_self ..), List.map_append, same]
      rfl

private theorem extendOwn_iff (holds : state.Holds inlineSize elements)
    (here : elements id = some list)
    (aligned : type.primitive ∨ type.sizeOf % 4 = 0)
    (allocates : Allocates type (state.vector id).capacity (list.length + list.length)) :
    Becomes (state.extendOwn type id) id (list.map value ++ list.map value) ↔
      KeepsSlots type (state.vector id) (list.length + list.length) := by
  have size := (holds.represented here).1.size
  have slots : ((List.range list.length).map (state.slot id)).length = list.length := by
    rw [List.length_map, List.length_range]
  obtain ⟨middle, now, ran, room, same, kept, good, lost⟩ := holds.own_slots here aligned allocates
  have length : now.length = list.length := length_of_values same
  unfold extendOwn extendSlots
  rw [size, slots, ran]
  constructor
  · rintro ⟨after, extended, _⟩
    by_contra moves
    have nonempty : list.length ≠ 0 := fun empty => moves (.inl (by omega))
    obtain ⟨count, counted⟩ := Nat.exists_eq_succ_of_ne_zero nonempty
    have still : (middle.vector id).size = list.length :=
      (kept.represented (Function.update_self ..)).1.size.trans length
    have already : middle.ensureCapacity type id (list.length + 1) = .ok middle := if_pos (by omega)
    obtain ⟨_, made, extended⟩ := bind_ok.mp extended
    cases made
    rw [counted, List.range_succ_eq_map, List.map_cons] at extended
    obtain ⟨first, appended, _⟩ := bind_ok.mp extended
    rw [appendSlot, still, already] at appended
    obtain ⟨_, made, appended⟩ := bind_ok.mp appended
    cases made
    obtain ⟨value, read, _⟩ := bind_ok.mp appended
    exact lost moves 0 (Nat.pos_of_ne_zero nonempty) ⟨value, read⟩
  · intro keeps
    have reads : ((List.range list.length).map (state.slot id)).map middle.dereference =
      (list.map value).map .ok := by
      refine List.ext_getElem (by simp) fun index inside _ => ?_
      have below : index < list.length := by simpa using inside
      simpa using (good keeps index).1.trans (dereference_own holds here below)
    obtain ⟨after, final, finished, whole, longer⟩ :=
      kept.appendSlots type (Function.update_self ..)
      (by rw [slots, length]; exact room) reads fun slot member later equal => by
        obtain ⟨index, below, rfl⟩ := List.mem_map.mp member
        rw [← (good keeps index).2 later equal, length]
        exact List.mem_range.mp below
    rw [Function.update_idem] at longer
    refine ⟨after, finished, ?_⟩
    rw [longer.span (Function.update_self ..), whole, same]

private theorem copyAssign_self_iff (holds : state.Holds inlineSize elements)
    (here : elements id = some list) (type : ElementType) :
    Becomes (state.copyAssign type id id) id (list.map value) ↔ list = [] := by
  obtain ⟨cleared, ran, _, empty, _⟩ := holds.clear here
  have nothing : cleared.span id = .ok [] := empty.span (Function.update_self ..)
  have size := (empty.represented (Function.update_self ..)).1.size
  have still : cleared.extend type id [] = .ok cleared := by
    have already : cleared.ensureCapacity type id ((cleared.vector id).size + 0) = .ok cleared :=
      if_pos (by rw [size]; exact Nat.zero_le _)
    simp only [Vectors.extend, List.length_nil, already, List.foldlM_nil, bind, Except.bind,
      pure, Except.pure]
  have assigned : state.copyAssign type id id = .ok cleared := by
    simp only [Vectors.copyAssign, ran, nothing, still, bind, Except.bind]
  rw [assigned]
  constructor
  · rintro ⟨_, made, same⟩
    cases made
    rw [nothing] at same
    exact List.map_eq_nil_iff.mp (Except.ok.inj same).symm
  · rintro rfl
    exact ⟨cleared, rfl, nothing⟩

end Holds
end Vectors
open Vectors

/-- Appending an element of the vector itself and extending it by its own span do what they
say as long as the references stay good, and a vector that is assigned to itself loses what
it has. -/
theorem own_arguments_iff (aligned : type.primitive ∨ type.sizeOf % 4 = 0) {state : Vectors T}
    (reachable : (machine type inlineSize).Reachable .initial state) {id : VectorId}
    (scope : (state.vectors id).isSome) :
    ∃ values, state.span id = .ok values ∧
      (∀ index (inside : index < values.length), state.permitted type inlineSize (.append id values[index]) →
        (Becomes (state.appendOwn type id index) id (values ++ [values[index]]) ↔
          KeepsSlots type (state.vector id) (values.length + 1))) ∧
      (state.permitted type inlineSize (.extend id values) →
        (Becomes (state.extendOwn type id) id (values ++ values) ↔
          KeepsSlots type (state.vector id) (values.length + values.length))) ∧
      (Becomes (state.copyAssign type id id) id values ↔ values = []) := by
  obtain ⟨elements, holds⟩ : ∃ elements, state.Holds inlineSize elements := by
    refine reachable.invariant (fun state => ∃ elements, state.Holds inlineSize elements)
      ⟨_, .initial⟩ ?_
    rintro state event next ⟨elements, holds⟩ permitted executed
    obtain ⟨after, now, ran, kept, _⟩ := holds.execute aligned permitted
    cases ran.symm.trans executed
    exact ⟨now, kept⟩
  obtain ⟨list, here⟩ := holds.found scope
  have size := (holds.represented here).1.size
  refine ⟨list.map value, holds.span here, fun index inside allowed => ?_, fun allowed => ?_, ?_⟩
  · have allocates := allowed.2
    rw [size] at allocates
    simp only [List.getElem_map, List.length_map]
    exact holds.appendOwn_iff here aligned allocates (by simpa using inside)
  · have allocates := allowed.2
    rw [size, List.length_map] at allocates
    rw [List.length_map]
    exact holds.extendOwn_iff here aligned allocates
  · rw [List.map_eq_nil_iff]
    exact holds.copyAssign_self_iff here type

theorem own_arguments_iff_two :
    ∃ state : Vectors Nat, (machine ⟨false, 4, by decide⟩ 2).after .initial [.construct 0, .append 0 5, .append 0 6] = some state ∧
      ∃ values, state.span 0 = .ok values ∧
        (∀ index (inside : index < values.length),
          state.permitted ⟨false, 4, by decide⟩ 2 (.append 0 values[index]) →
          (Becomes (state.appendOwn ⟨false, 4, by decide⟩ 0 index) 0 (values ++ [values[index]]) ↔
            KeepsSlots ⟨false, 4, by decide⟩ (state.vector 0) (values.length + 1))) ∧
        (state.permitted ⟨false, 4, by decide⟩ 2 (.extend 0 values) →
          (Becomes (state.extendOwn ⟨false, 4, by decide⟩ 0) 0 (values ++ values) ↔
            KeepsSlots ⟨false, 4, by decide⟩ (state.vector 0) (values.length + values.length))) ∧
        (Becomes (state.copyAssign ⟨false, 4, by decide⟩ 0 0) 0 values ↔ values = []) := by
  have finished : ((machine ⟨false, 4, by decide⟩ 2).after (.initial : Vectors Nat)
      [.construct 0, .append 0 5, .append 0 6]).isSome := by decide +kernel
  obtain ⟨state, played⟩ := Option.isSome_iff_exists.mp finished
  have scope : (((machine ⟨false, 4, by decide⟩ 2).after (.initial : Vectors Nat)
      [.construct 0, .append 0 5, .append 0 6]).bind fun state => state.vectors 0).isSome := by
        decide +kernel
  rw [played] at scope
  exact ⟨state, played, own_arguments_iff (.inr (by decide)) (Machine.reachable_after played) scope⟩

/-- Two elements fill the inline data. The argument of `append` has been destroyed when it is
used, and an assignment to itself leaves the vector empty. -/
theorem own_arguments_lost :
    ∃ state : Vectors Nat, (machine ⟨false, 4, by decide⟩ 2).after .initial [.construct 0, .append 0 5, .append 0 6] = some state ∧
      state.span 0 = .ok [5, 6] ∧ ¬Becomes (state.appendOwn ⟨false, 4, by decide⟩ 0 0) 0 [5, 6, 5] ∧
      ¬Becomes (state.extendOwn ⟨false, 4, by decide⟩ 0) 0 [5, 6, 5, 6] ∧
      ¬Becomes (state.copyAssign ⟨false, 4, by decide⟩ 0 0) 0 [5, 6] := by
  have runs : ((machine ⟨false, 4, by decide⟩ 2).after (.initial : Vectors Nat) [.construct 0, .append 0 5, .append 0 6]).map
      (fun state => (state.span 0,
        state.appendOwn ⟨false, 4, by decide⟩ 0 0 >>= fun after => after.span 0,
        state.extendOwn ⟨false, 4, by decide⟩ 0 >>= fun after => after.span 0,
        state.copyAssign ⟨false, 4, by decide⟩ 0 0 >>= fun after => after.span 0)) =
      some (.ok [5, 6], .error .vacant, .error .vacant, .ok []) := by
    decide +kernel
  obtain ⟨state, played, results⟩ := Option.map_eq_some_iff.mp runs
  simp only [Prod.mk.injEq] at results
  obtain ⟨span, append, extend, assign⟩ := results
  refine ⟨state, played, span, fun becomes => ?_, fun becomes => ?_, fun becomes => ?_⟩
  · cases append.symm.trans (bind_ok.mpr becomes)
  · cases extend.symm.trans (bind_ok.mpr becomes)
  · cases assign.symm.trans (bind_ok.mpr becomes)

end PicoOs.Std
