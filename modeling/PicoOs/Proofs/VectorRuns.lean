import PicoOs.Library.Custody
import PicoOs.Proofs.VectorStorage

/-! Vectors are lists. Each of them has its own storage, inline or in a buffer that it
owns, and every buffer and every object is given up once. -/

namespace PicoOs.Std
open Library Element
variable {T : Type} {type : ElementType} {inlineSize : Nat}

def Vector.storage (buffers : BufferId → Option (Storage T)) (vector : Vector T) :
    Option (Storage T) :=
  if vector.useInlineData then some vector.inlineData else vector.data.bind buffers

structure Vector.Represents (inlineSize : Nat) (buffers : BufferId → Option (Storage T))
    (vector : Vector T)
    (list : List (Element T)) : Prop where
  size : vector.size = list.length
  fits : list.length ≤ vector.capacity
  mode : vector.useInlineData = vector.data.isNone
  inlineCapacity : vector.useInlineData → vector.capacity = inlineSize
  inlineRoom : vector.inlineData.room = inlineSize
  stored : ∃ storage, vector.storage buffers = some storage ∧ vector.capacity ≤ storage.room ∧
    storage.Holds 0 list

theorem Vector.Represents.congr {before after : BufferId → Option (Storage T)} {vector : Vector T}
    {list : List (Element T)}
    (represents : vector.Represents inlineSize before list)
    (same : ∀ buffer, vector.data = some buffer → after buffer = before buffer) :
    vector.Represents inlineSize after list := by
  obtain ⟨storage, found, rest⟩ := represents.stored
  refine { represents with stored := ⟨storage, ?_, rest⟩ }
  rw [← found]
  unfold Vector.storage
  cases owns : vector.data with
  | none => rfl
  | some buffer => rw [Option.bind_some, Option.bind_some, same buffer owns]

namespace Vectors
variable {state : Vectors T} {elements : Contents (Element T)} {id : VectorId}
  {list : List (Element T)}

def owned (state : Vectors T) (id : VectorId) : List BufferId :=
  ((state.vectors id).bind Vector.data).toList

/-- The vectors hold the objects. Objects and buffers that no vector has any more have been
given up once. -/
structure Holds (inlineSize : Nat) (state : Vectors T)
    (elements : Contents (Element T)) : Prop where
  represents : ∀ id, Option.Rel (Vector.Represents inlineSize state.buffers)
    (state.vectors id) (elements id)
  objects : Custody (numbers elements) state.next state.destroyed
  owners : Custody state.owned state.nextBuffer state.released

namespace Holds

theorem initial : Holds inlineSize (Vectors.initial : Vectors T) fun _ => none :=
  ⟨fun _ => .none, .initial, .initial⟩

theorem represented (holds : state.Holds inlineSize elements) (here : elements id = some list) :
    (state.vector id).Represents inlineSize state.buffers list ∧
    state.vectors id = some (state.vector id) := by
  have related := holds.represents id
  rw [here] at related
  unfold vector
  cases scope : state.vectors id with
  | none => cases scope ▸ related
  | some vector =>
    cases scope ▸ related with
    | some represents => exact ⟨represents, rfl⟩

theorem found (holds : state.Holds inlineSize elements) (scope : (state.vectors id).isSome) :
    ∃ list, elements id = some list := by
  have related := holds.represents id
  cases here : elements id with
  | none =>
    rw [here] at related
    cases absent : state.vectors id with
    | none => cases absent ▸ scope
    | some vector => cases absent ▸ related
  | some list => exact ⟨list, rfl⟩

theorem outside (holds : state.Holds inlineSize elements) (absent : state.vectors id = none) :
    elements id = none := by
  have related := holds.represents id
  rw [absent] at related
  cases here : elements id with
  | none => rfl
  | some list => cases here ▸ related

theorem data (holds : state.Holds inlineSize elements) (here : elements id = some list) :
    ∃ storage, state.data id = .ok storage ∧
    (state.vector id).storage state.buffers = some storage ∧
      (state.vector id).capacity ≤ storage.room ∧ storage.Holds 0 list := by
  have ⟨represents, _⟩ := holds.represented here
  obtain ⟨storage, found, room, kept⟩ := represents.stored
  refine ⟨storage, ?_, found, room, kept⟩
  unfold Vector.storage at found
  unfold Vectors.data
  split at found
  next usesInline =>
    rw [if_pos usesInline, Option.some.inj found]
  next usesBuffer =>
    rw [if_neg usesBuffer, found]

theorem untouched (holds : state.Holds inlineSize elements)
    {buffers : BufferId → Option (Storage T)} {other : VectorId}
    (frame : ∀ buffer ∈ state.owned other, buffers buffer = state.buffers buffer) :
    Option.Rel (Vector.Represents inlineSize buffers) (state.vectors other) (elements other) := by
  cases scope : state.vectors other with
  | none =>
    rw [holds.outside scope]
    exact .none
  | some found =>
    obtain ⟨contents, there⟩ := holds.found (Option.isSome_of_eq_some scope)
    have ⟨represents, same⟩ := holds.represented there
    rw [scope] at same
    rw [there, Option.some.inj same]
    refine .some (represents.congr fun buffer owns => frame buffer ?_)
    simp [Vectors.owned, scope, Option.some.inj same, owns]

theorem change (holds : state.Holds inlineSize elements) (here : elements id = some list)
    {after : Vectors T} {vector : Vector T}
    {now : List (Element T)} (made new : Nat) (released freed : List Nat)
    (vectors : after.vectors = Function.update state.vectors id (some vector))
    (frame : ∀ buffer, buffer < state.nextBuffer → (state.vector id).data ≠ some buffer →
      after.buffers buffer = state.buffers buffer)
    (represents : vector.Represents inlineSize after.buffers now)
    (next : after.next = state.next + made)
    (destroyed : after.destroyed = released ++ state.destroyed)
    (objects : (now.map number ++ released).Perm (list.map number ++ List.range' state.next made))
    (nextBuffer : after.nextBuffer = state.nextBuffer + new)
    (given : after.released = freed ++ state.released)
    (buffers : (vector.data.toList ++ freed).Perm ((state.vector id).data.toList ++
      List.range' state.nextBuffer new)) :
    after.Holds inlineSize (Function.update elements id (some now)) := by
  have ⟨_, scope⟩ := holds.represented here
  have owned : after.owned = Function.update state.owned id vector.data.toList := by
    funext other
    simp only [Vectors.owned, vectors, Function.update_apply]
    split <;> rfl
  refine ⟨fun other => ?_, ?_, ?_⟩
  · rw [vectors, Function.update_apply, Function.update_apply]
    split
    next => exact .some represents
    next different =>
      refine holds.untouched fun buffer member => ?_
      refine frame buffer (holds.owners.old member) fun here =>
        different (holds.owners.apart member ?_)
      simp [Vectors.owned, scope, here]
  · rw [numbers_update, next, destroyed]
    exact holds.objects.change (by rwa [numbers, here])
  · rw [owned, nextBuffer, given]
    exact holds.owners.change (by rwa [Vectors.owned, scope])

end Holds

structure Written (state after : Vectors T) (id : VectorId) (vector : Vector T)
    (storage : Storage T) : Prop where
  vectors : after.vectors = Function.update state.vectors id (some vector)
  stored : vector.storage after.buffers = some storage
  size : vector.size = (state.vector id).size
  capacity : vector.capacity = (state.vector id).capacity
  mode : vector.useInlineData = (state.vector id).useInlineData
  buffer : vector.data = (state.vector id).data
  inlineRoom : vector.inlineData.room = (state.vector id).inlineData.room
  frame : ∀ buffer, (state.vector id).data ≠ some buffer →
    after.buffers buffer = state.buffers buffer
  others : after.nextBuffer = state.nextBuffer ∧ after.released = state.released ∧
    after.next = state.next ∧
    after.destroyed = state.destroyed

theorem vector_update {after : Vectors T} {vector : Vector T}
    (vectors : after.vectors = Function.update state.vectors id (some vector)) :
    after.vector id = vector := by
  rw [Vectors.vector, vectors, Function.update_self, Option.getD_some]

theorem vector_replace (state : Vectors T) (id : VectorId) (vector : Vector T) :
    (state.replace id vector).vector id = vector :=
  vector_update rfl

theorem vector_other (state : Vectors T) {id other : VectorId} (different : other ≠ id)
    (vector : Vector T) :
    (state.replace id vector).vector other = state.vector other :=
  congrArg (Option.getD · (emptyVector 0)) (Function.update_of_ne different ..)

theorem owned_some {vector : Vector T} (scope : state.vectors id = some vector) :
    state.owned id = vector.data.toList := by
  rw [Vectors.owned, scope, Option.bind_some]

theorem setData_written (scope : state.vectors id = some (state.vector id))
    {old storage : Storage T}
    (found : state.data id = .ok old) (room : storage.room = old.room) :
    ∃ vector, Written state (state.setData id storage) id vector storage := by
  unfold Vectors.data at found
  unfold setData
  split at found
  next usesInline =>
    cases found
    rw [if_pos usesInline]
    refine ⟨_, rfl, ?_, rfl, rfl, rfl, rfl, room, fun _ _ => rfl, rfl, rfl, rfl, rfl⟩
    exact if_pos usesInline
  next usesBuffer =>
    rw [if_neg usesBuffer]
    cases owns : (state.vector id).data with
    | none => rw [owns] at found; cases found
    | some buffer =>
      refine ⟨state.vector id, ?_, ?_, rfl, rfl, rfl, rfl, rfl, fun other different => ?_,
        rfl, rfl, rfl, rfl⟩
      · rw [← scope, Function.update_eq_self]
      · rw [Vector.storage, if_neg usesBuffer, owns]
        exact Function.update_self ..
      · exact Function.update_of_ne (fun same => different (owns ▸ congrArg some same.symm)) ..

namespace Holds

theorem restore (holds : state.Holds inlineSize elements) (here : elements id = some list)
    {old : Storage T}
    (found : state.data id = .ok old) (storage : Storage T) (room : storage.room = old.room)
    {now : List (Element T)}
    (filled : storage.Holds 0 now) (fits : now.length ≤ (state.vector id).capacity)
    (after : Vectors T)
    (vectors : after.vectors = Function.update (state.setData id storage).vectors id
      (some { (state.setData id storage).vector id with size := now.length }))
    (buffers : after.buffers = (state.setData id storage).buffers)
      (nextBuffer : after.nextBuffer = (state.setData id storage).nextBuffer)
    (given : after.released = (state.setData id storage).released) (made : Nat)
      (released : List Nat)
    (next : after.next = state.next + made) (destroyed : after.destroyed = released ++ state.destroyed)
    (objects : (now.map number ++ released).Perm (list.map number ++ List.range' state.next made)) :
    after.Holds inlineSize (Function.update elements id (some now)) ∧
      (after.vector id).capacity = (state.vector id).capacity ∧
      ∀ other, other ≠ id → after.vector other = state.vector other := by
  have ⟨represents, scope⟩ := holds.represented here
  obtain ⟨vector, written⟩ := setData_written scope found room
  have ⟨sameNext, sameReleased, _, _⟩ := written.others
  have changed : after.vectors = Function.update state.vectors id
    (some { vector with size := now.length }) := by
    rw [vectors, vector_update written.vectors, written.vectors, Function.update_idem]
  have enough : (state.vector id).capacity ≤ storage.room := by
    obtain ⟨other, same, _, enough, _⟩ := holds.data here
    cases same.symm.trans found
    exact room ▸ enough
  refine ⟨holds.change here made 0 released [] changed (fun buffer _ different => buffers ▸ written.frame buffer different)
    ⟨rfl, written.capacity ▸ fits, ?_, ?_, written.inlineRoom.trans represents.inlineRoom, storage,
      ?_, ?_, filled⟩
    next destroyed objects (nextBuffer.trans sameNext) (given.trans sameReleased) ?_, ?_,
      fun other elsewhere =>
      ?_⟩
  · rw [written.mode, represents.mode, written.buffer]
  · exact fun usesInline => written.capacity.trans
      (represents.inlineCapacity (written.mode ▸ usesInline))
  · rw [buffers]
    exact written.stored
  · exact written.capacity.symm ▸ enough
  · rw [written.buffer]
    exact .refl _
  · rw [vector_update changed]
    exact written.capacity
  · unfold Vectors.vector
    rw [changed, Function.update_of_ne elsewhere]

theorem setData_counts (state : Vectors T) (id : VectorId) (storage : Storage T) :
    (state.setData id storage).next = state.next ∧
    (state.setData id storage).destroyed = state.destroyed := by
  unfold Vectors.setData
  split
  next => exact ⟨rfl, rfl⟩
  next => split <;> exact ⟨rfl, rfl⟩

private theorem setData_size (holds : state.Holds inlineSize elements)
    (here : elements id = some list) {old : Storage T}
    (found : state.data id = .ok old) (storage : Storage T) (room : storage.room = old.room) :
    ((state.setData id storage).vector id).size = list.length := by
  obtain ⟨vector, written⟩ := setData_written (holds.represented here).2 found room
  rw [vector_update written.vectors, written.size, (holds.represented here).1.size]

theorem place (holds : state.Holds inlineSize elements) (here : elements id = some list)
    (room : list.length < (state.vector id).capacity) (value : T) :
    ∃ after, state.place id value = .ok after ∧
    (after.vector id).capacity = (state.vector id).capacity ∧
      after.Holds inlineSize (Function.update elements id (some (list ++ [⟨state.next, value⟩]))) := by
  have size := (holds.represented here).1.size
  obtain ⟨storage, found, _, enough, filled⟩ := holds.data here
  obtain ⟨longer, put, same, pushed⟩ :=
    filled.push (Nat.lt_of_lt_of_le room enough) ⟨state.next, value⟩
  have written := holds.setData_size here found longer same
  have sizes : ((state.setData id longer).vector id).size + 1 =
    (list ++ [Element.mk state.next value]).length := by
    rw [written, List.length_append, List.length_singleton]
  simp only [Vectors.place, found, bind, Except.bind, size, put]
  have fits : (list ++ [Element.mk state.next value]).length ≤ (state.vector id).capacity := by
    rw [List.length_append]
    exact room
  have balanced : ((list ++ [Element.mk state.next value]).map number ++ []).Perm
    (list.map number ++ List.range' state.next 1) := by
    rw [List.append_nil, List.map_append]
    exact .refl _
  obtain ⟨kept, capacity, _⟩ := holds.restore here found longer same pushed fits
    (replace { state.setData id longer with next := state.next + 1 } id
      { (state.setData id longer).vector id with size := ((state.setData id longer).vector id).size + 1 })
    (by rw [← sizes]; rfl) rfl rfl rfl 1 [] rfl (setData_counts ..).2 balanced
  exact ⟨_, rfl, capacity, kept⟩

theorem clear (holds : state.Holds inlineSize elements) (here : elements id = some list) :
    ∃ after, state.clear id = .ok after ∧ (after.vector id).capacity = (state.vector id).capacity ∧
      after.Holds inlineSize (Function.update elements id (some [])) ∧
      ∀ other, other ≠ id → after.vector other = state.vector other := by
  have size := (holds.represented here).1.size
  obtain ⟨storage, found, _, _, filled⟩ := holds.data here
  unfold Vectors.clear
  rw [size]
  split
  next empty =>
    refine ⟨state, rfl, rfl, ?_, fun _ _ => rfl⟩
    rwa [← List.length_eq_zero_iff.mp empty, ← here, Function.update_eq_self]
  next =>
    obtain ⟨left, destroyed, room⟩ := filled.destroy state.destroyed
    simp only [found, bind, Except.bind, destroyed]
    have nothing : left.Holds 0 [] := trivial
    have balanced : (([] : List (Element T)).map number ++ (list.map number).reverse).Perm
        (list.map number ++ List.range' state.next 0) := by
      rw [List.range'_zero, List.append_nil]
      exact List.reverse_perm _
    obtain ⟨kept, capacity, frame⟩ := holds.restore here found left room nothing (Nat.zero_le _)
      (replace { state.setData id left with destroyed := (list.map number).reverse ++ state.destroyed } id
        { (state.setData id left).vector id with size := 0 })
      rfl rfl rfl rfl 0 (list.map number).reverse (setData_counts ..).1 rfl balanced
    exact ⟨_, rfl, capacity, kept, frame⟩

end Holds

structure Freed (state after : Vectors T) (data : Option BufferId) : Prop where
  vectors : after.vectors = state.vectors
  frame : ∀ buffer, data ≠ some buffer → after.buffers buffer = state.buffers buffer
  gone : ∀ buffer, data = some buffer → after.buffers buffer = none
  released : after.released = data.toList ++ state.released
  others : after.nextBuffer = state.nextBuffer ∧ after.next = state.next ∧
    after.destroyed = state.destroyed

theorem release_spec (state : Vectors T) (data : Option BufferId)
    (alive : ∀ buffer, data = some buffer → (state.buffers buffer).isSome) :
    ∃ after, state.release data = .ok after ∧ Freed state after data := by
  cases data with
  | none => exact ⟨state, rfl, rfl, fun _ _ => rfl, nofun, rfl, rfl, rfl, rfl⟩
  | some buffer =>
    refine ⟨_, if_pos (alive buffer rfl), rfl, fun other different => ?_, fun other same => ?_,
      rfl, rfl, rfl, rfl⟩
    · exact Function.update_of_ne (fun same => different (congrArg some same.symm)) ..
    · cases same
      exact Function.update_self ..

/-- A vector has moved to a new buffer. Its old buffer is gone, and its inline data is what the
elements have left there. -/
structure Grown (type : ElementType) (state after : Vectors T) (id : VectorId) : Prop where
  usesBuffer : (after.vector id).useInlineData = false
  gone : ∀ buffer, (state.vector id).data = some buffer → after.buffers buffer = none
  copied : type.primitive = true → (state.vector id).useInlineData = true →
    (after.vector id).inlineData = (state.vector id).inlineData
  moved : type.primitive = false → (state.vector id).useInlineData = true →
    ∀ slot < (state.vector id).size, (after.vector id).inlineData.slots slot = none

private theorem relocate_spec (aligned : type.primitive ∨ type.sizeOf % 4 = 0) {old new : Storage T}
    (filled : old.Holds 0 list)
    (room : list.length ≤ new.room) (next : Nat) (destroyed : List Nat) :
    ∃ after now made released, relocate type list.length (old, new, next, destroyed) = .ok after ∧
      Storage.Moves old new next destroyed [] list after now made released := by
  have enough : ([] : List (Element T)).length + list.length ≤ new.room := by
    rwa [List.length_nil, Nat.zero_add]
  have nothing : new.Holds 0 [] := trivial
  unfold relocate
  split
  next =>
    obtain ⟨after, ran, moves⟩ := filled.copy nothing enough next destroyed
    exact ⟨after, list, 0, [], ran, moves⟩
  next notPrimitive =>
    rw [if_neg (not_not.mpr (aligned.resolve_left notPrimitive))]
    obtain ⟨after, now, ran, moves⟩ := filled.move nothing enough next destroyed
    exact ⟨after, now, _, _, ran, moves⟩

namespace Holds

/-- A vector gets a new buffer with the elements that its old slots had. -/
theorem adopt (holds : state.Holds inlineSize elements) (here : elements id = some list)
    {old left new : Storage T}
    (found : state.data id = .ok old) (room : left.room = old.room) {now : List (Element T)}
    (filled : new.Holds 0 now)
    (length : now.length = list.length) {newCapacity : Nat} (fits : list.length ≤ newCapacity)
    (enough : newCapacity ≤ new.room)
    {next : Nat} {destroyed : List Nat} (made : Nat) (released : List Nat)
    (counts : next = state.next + made)
    (log : destroyed = released ++ state.destroyed)
    (objects : (now.map number ++ released).Perm (list.map number ++ List.range' state.next made)) :
    ∃ after,
      Vectors.adopt { setData { state with nextBuffer := state.nextBuffer +
        1 } id left with next, destroyed } id state.nextBuffer
        new newCapacity = .ok after ∧
      (after.vector id).capacity = newCapacity ∧ (after.vector id).useInlineData = false ∧
      (∀ buffer, (state.vector id).data = some buffer → after.buffers buffer = none) ∧
      ((state.vector id).useInlineData = true → (after.vector id).inlineData = left) ∧
      after.Holds inlineSize (Function.update elements id (some now)) := by
  have ⟨represents, scope⟩ := holds.represented here
  have scope' : Vectors.vectors { state with nextBuffer := state.nextBuffer + 1 } id =
    some (Vectors.vector { state with nextBuffer := state.nextBuffer + 1 } id) := scope
  obtain ⟨vector, written⟩ := setData_written scope' found room
  have ⟨nextBuffer, given, _, _⟩ := written.others
  have here' : Vectors.vector { setData { state with nextBuffer := state.nextBuffer + 1 } id left with next, destroyed } id = vector :=
    vector_update written.vectors
  have mode : vector.useInlineData = vector.data.isNone := by
    rw [written.mode, written.buffer]; exact represents.mode
  obtain ⟨after, ran, freed⟩ :=
    release_spec { setData { state with nextBuffer := state.nextBuffer + 1 } id left with next, destroyed }
    vector.data fun buffer owns => by
      have stored := written.stored
      rw [Vector.storage, mode, owns] at stored
      exact Option.isSome_of_eq_some stored
  have now' : after.vector id = vector := by
    unfold Vectors.vector at here' ⊢
    rw [freed.vectors]
    exact here'
  have ⟨sameBuffer, sameNext, sameDestroyed⟩ := freed.others
  have vectors : Function.update after.vectors id (some { after.vector id with
      data := some state.nextBuffer, capacity := newCapacity, useInlineData := false }) =
      Function.update state.vectors id (some { vector with
        data := some state.nextBuffer, capacity := newCapacity, useInlineData := false }) := by
    have same : after.vectors = Function.update state.vectors id (some vector) :=
      freed.vectors.trans written.vectors
    rw [now', same, Function.update_idem]
  simp only [Vectors.adopt, here', ran, bind, Except.bind]
  refine ⟨_, rfl, ?_, ?_, fun buffer owns => ?_, fun usesInline => ?_,
    holds.change here made 1 released (state.vector id).data.toList vectors
      (fun buffer old other => ?_)
    ⟨?_, ?_, rfl, nofun, ?_, new, ?_, enough, filled⟩ (sameNext.trans counts)
      (sameDestroyed.trans log) objects
    (sameBuffer.trans nextBuffer) ?_ ?_⟩
  · exact congrArg Vector.capacity (vector_replace ..)
  · exact congrArg Vector.useInlineData (vector_replace ..)
  · have member : buffer ∈ state.owned id := by
      rw [owned_some scope, owns]
      exact List.mem_singleton_self buffer
    have notNew : buffer ≠ state.nextBuffer := Nat.ne_of_lt (holds.owners.old member)
    exact (Function.update_of_ne notNew ..).trans (freed.gone buffer (written.buffer.trans owns))
  · have stored := written.stored
    rw [Vector.storage, if_pos (written.mode.trans usesInline)] at stored
    have same : (after.vector id).inlineData = vector.inlineData := congrArg Vector.inlineData now'
    rw [← Option.some.inj stored, ← same, vector_replace]
  · have notNew : buffer ≠ state.nextBuffer := Nat.ne_of_lt old
    have kept : after.buffers buffer = state.buffers buffer := by
      rw [freed.frame buffer (written.buffer.symm ▸ other)]
      exact written.frame buffer other
    exact (Function.update_of_ne notNew ..).trans kept
  · rw [length]
    exact written.size.trans represents.size
  · exact length ▸ fits
  · exact written.inlineRoom.trans represents.inlineRoom
  · exact Function.update_self ..
  · have buffer : vector.data = (state.vector id).data := written.buffer
    rw [← buffer]
    exact freed.released.trans (congrArg (vector.data.toList ++ ·) given)
  · exact List.perm_append_comm

theorem grow (holds : state.Holds inlineSize elements) (here : elements id = some list)
    (aligned : type.primitive ∨ type.sizeOf % 4 = 0) {count : Nat}
    (allocates : Allocates type (state.vector id).capacity count) :
    ∃ after now, state.ensureCapacity type id count = .ok after ∧
    count ≤ (after.vector id).capacity ∧
      ((state.vector id).capacity < count → Grown type state after id) ∧
      now.map value = list.map value ∧
      after.Holds inlineSize (Function.update elements id (some now)) := by
  have ⟨represents, scope⟩ := holds.represented here
  obtain ⟨below, enough⟩ := allocates
  unfold Vectors.ensureCapacity
  split
  next already =>
    refine ⟨state, list, rfl, already,
      fun larger => absurd already (Nat.not_le.mpr larger), rfl, ?_⟩
    rwa [← here, Function.update_eq_self]
  next short =>
    have fits := represents.fits
    obtain ⟨rounds, larger⟩ := lt_roundToPowerOfTwo (by omega) below
    have room : wrap (type.sizeOf * 2 ^ (32 - clz count)) / type.sizeOf = 2 ^ (32 - clz count) := by
      rw [wrap_of_lt (enough.resolve_left short), Nat.mul_div_cancel_left _ type.positive]
    generalize 2 ^ (32 - clz count) = newCapacity at rounds larger room
    have above : list.length ≤ newCapacity := by omega
    obtain ⟨old, found, stored, _, filled⟩ := holds.data here
    have enoughNew : list.length ≤ (Storage.empty newCapacity : Storage T).room := above
    obtain ⟨⟨left, new, next, destroyed⟩, now, made, released, ran, moves⟩ :=
      relocate_spec aligned filled enoughNew state.next state.destroyed
    have length : now.length = list.length := length_of_values moves.values
    obtain ⟨after, adopted, capacity, mode, gone, inlineData, kept⟩ :=
      holds.adopt here found moves.oldRoom moves.holds length above
      (Nat.le_of_eq moves.newRoom.symm) made released moves.next moves.destroyed moves.balanced
    refine ⟨after, now, ?_, by omega, fun _ => ⟨mode, gone, fun primitive usesInline => ?_, fun moved usesInline => ?_⟩,
      moves.values, kept⟩
    rotate_left
    · rw [inlineData usesInline, (Storage.relocate_left ran).1 primitive]
      rw [Vectors.data, if_pos usesInline] at found
      exact (Except.ok.inj found).symm
    · rw [inlineData usesInline, represents.size]
      exact (Storage.relocate_left ran).2 moved
    have found' : Vectors.data { state with nextBuffer := state.nextBuffer + 1 } id = .ok old :=
      found
    have size : (Vectors.vector { state with nextBuffer := state.nextBuffer + 1 } id).size =
      list.length := represents.size
    have bigger : ¬¬newCapacity > list.length := not_not.mpr (by omega)
    simp only [rounds, bind, Except.bind, allocate, room, found', size, if_neg bigger, ran]
    exact adopted

private theorem append (holds : state.Holds inlineSize elements) (here : elements id = some list)
    (aligned : type.primitive ∨ type.sizeOf % 4 = 0)
    (allocates : Allocates type (state.vector id).capacity (list.length + 1))
    (value : T) :
    ∃ after now, state.append type id value = .ok after ∧
    now.map Element.value = list.map Element.value ++ [value] ∧
      after.Holds inlineSize (Function.update elements id (some now)) := by
  have size := (holds.represented here).1.size
  obtain ⟨middle, kept, ran, room, _, same, grown⟩ := holds.grow here aligned allocates
  have length : kept.length = list.length := length_of_values same
  obtain ⟨after, placed, _, longer⟩ := grown.place (Function.update_self ..) (by omega) value
  rw [Function.update_idem] at longer
  refine ⟨after, _, ?_, ?_, longer⟩
  · simp only [Vectors.append, size, ran, bind, Except.bind, placed]
  · rw [List.map_append, same]
    rfl

private theorem append_within (holds : state.Holds inlineSize elements)
    (here : elements id = some list)
    (room : list.length < (state.vector id).capacity) (type : ElementType) (value : T) :
    ∃ after, state.append type id value = .ok after ∧
    (after.vector id).capacity = (state.vector id).capacity ∧
      after.Holds inlineSize (Function.update elements id (some (list ++ [⟨state.next, value⟩]))) := by
  have size := (holds.represented here).1.size
  obtain ⟨after, placed, capacity, longer⟩ := holds.place here room value
  refine ⟨after, ?_, capacity, longer⟩
  have already : state.ensureCapacity type id (list.length + 1) = .ok state := if_pos room
  simp only [Vectors.append, size, already, bind, Except.bind, placed]

private theorem appendAll (type : ElementType) {values : List T}
    (holds : state.Holds inlineSize elements) (here : elements id = some list)
    (room : list.length + values.length ≤ (state.vector id).capacity) :
    ∃ after now, values.foldlM (fun state value => state.append type id value) state = .ok after ∧
      now.map value = list.map value ++ values ∧
      after.Holds inlineSize (Function.update elements id (some now)) := by
  induction values generalizing state elements list with
  | nil =>
    refine ⟨state, list, rfl, by rw [List.append_nil], ?_⟩
    rwa [← here, Function.update_eq_self]
  | cons value values ih =>
    rw [List.length_cons] at room
    obtain ⟨middle, ran, capacity, longer⟩ := holds.append_within here (by omega) type value
    obtain ⟨after, now, finished, same, kept⟩ := ih longer (Function.update_self ..)
      (by rw [List.length_append, List.length_singleton, capacity]; omega)
    rw [Function.update_idem] at kept
    refine ⟨after, now, ?_, ?_, kept⟩
    · simp only [List.foldlM_cons, ran, bind, Except.bind, finished]
    · rw [same, List.map_append, List.append_assoc]
      rfl

theorem extend (holds : state.Holds inlineSize elements) (here : elements id = some list)
    (aligned : type.primitive ∨ type.sizeOf % 4 = 0) (values : List T)
    (allocates : Allocates type (state.vector id).capacity (list.length + values.length)) :
    ∃ after now, state.extend type id values = .ok after ∧
    now.map value = list.map value ++ values ∧
      after.Holds inlineSize (Function.update elements id (some now)) := by
  have size := (holds.represented here).1.size
  obtain ⟨middle, kept, ran, room, _, same, grown⟩ := holds.grow here aligned allocates
  have length : kept.length = list.length := length_of_values same
  obtain ⟨after, now, appended, whole, longer⟩ :=
    grown.appendAll type (Function.update_self ..) (length ▸ room)
  rw [Function.update_idem] at longer
  refine ⟨after, now, ?_, by rw [whole, same], longer⟩
  simp only [Vectors.extend, size, ran, bind, Except.bind, appended]

theorem span (holds : state.Holds inlineSize elements) (here : elements id = some list) :
    state.span id = .ok (list.map value) := by
  obtain ⟨storage, found, _, _, filled⟩ := holds.data here
  simp only [Vectors.span, found, bind, Except.bind, (holds.represented here).1.size, filled.read]

private theorem copyAssign (holds : state.Holds inlineSize elements)
    (aligned : type.primitive ∨ type.sizeOf % 4 = 0)
    {target source : VectorId} (different : target ≠ source) {old : List (Element T)}
    (there : elements source = some list)
    (here : elements target = some old)
    (allocates : Allocates type (state.vector target).capacity list.length) :
    ∃ after now, state.copyAssign type target source = .ok after ∧ now.map value = list.map value ∧
      after.Holds inlineSize (Function.update elements target (some now)) := by
  obtain ⟨cleared, ran, capacity, empty, _⟩ := holds.clear here
  have still : Function.update elements target (some []) source = some list := by
    rw [Function.update_of_ne different.symm, there]
  obtain ⟨after, now, extended, same, kept⟩ :=
    empty.extend (Function.update_self ..) aligned (list.map value)
    (by rwa [List.length_map, List.length_nil, Nat.zero_add, capacity])
  rw [Function.update_idem] at kept
  refine ⟨after, now, ?_, same, kept⟩
  simp only [Vectors.copyAssign, ran, bind, Except.bind, empty.span still, extended]

theorem alive (holds : state.Holds inlineSize elements) (here : elements id = some list) :
    ∀ buffer, (state.vector id).data = some buffer → (state.buffers buffer).isSome := by
  intro buffer owns
  have ⟨represents, _⟩ := holds.represented here
  obtain ⟨storage, stored, _⟩ := represents.stored
  rw [Vector.storage, represents.mode, owns] at stored
  exact Option.isSome_of_eq_some stored

private theorem takeBuffer (holds : state.Holds inlineSize elements) {target source : VectorId}
    (different : target ≠ source)
    (there : elements source = some list) (here : elements target = some [])
    (usesBuffer : (state.vector source).useInlineData = false) :
    ∃ after, state.takeBuffer inlineSize target source = .ok after ∧
      after.Holds inlineSize (Function.update (Function.update elements source (some [])) target (some list)) := by
  have ⟨representsTarget, scopeTarget⟩ := holds.represented here
  have ⟨representsSource, scopeSource⟩ := holds.represented there
  obtain ⟨middle, ran, freed⟩ := release_spec state (state.vector target).data (holds.alive here)
  have ⟨sameBuffer, sameNext, sameDestroyed⟩ := freed.others
  have middleVector : ∀ id, middle.vector id = state.vector id := fun id => by
    rw [Vectors.vector, freed.vectors]; rfl
  simp only [Vectors.takeBuffer, ran, bind, Except.bind, middleVector,
    vector_other middle different.symm]
  have frame : ∀ other, other ≠ target → ∀ buffer ∈ state.owned other, middle.buffers buffer =
    state.buffers buffer := by
    refine fun other notTarget buffer member => freed.frame buffer fun owns =>
      notTarget (holds.owners.apart member ?_)
    rw [owned_some scopeTarget, owns]
    exact List.mem_singleton_self buffer
  refine ⟨_, rfl, fun other => ?_, ?_, ?_⟩
  · simp only [replace, Function.update_apply, freed.vectors]
    by_cases isSource : other = source
    · rw [if_pos isSource, if_neg (isSource ▸ different.symm), if_pos isSource]
      exact .some ⟨rfl, Nat.zero_le _, rfl, fun _ => rfl, representsSource.inlineRoom, _, rfl,
        Nat.le_of_eq representsSource.inlineRoom.symm, trivial⟩
    · rw [if_neg isSource, if_neg isSource]
      by_cases isTarget : other = target
      · rw [if_pos isTarget, if_pos isTarget]
        have mode := representsSource.mode
        obtain ⟨storage, stored, room, filled⟩ :=
          (representsSource.congr fun buffer owns => frame source different.symm buffer
          (by rw [owned_some scopeSource, owns]; exact List.mem_singleton_self buffer)).stored
        rw [Vector.storage, usesBuffer] at stored
        rw [usesBuffer] at mode
        exact .some ⟨representsSource.size, representsSource.fits, mode, nofun,
          representsTarget.inlineRoom, storage, stored, room, filled⟩
      · rw [if_neg isTarget, if_neg isTarget]
        exact holds.untouched (frame other isTarget)
  · have empty : numbers elements target = [] := by rw [numbers, here]; rfl
    have whole : numbers elements source = list.map number := by rw [numbers, there]; rfl
    have moved := holds.objects.transfer source empty
    rw [whole, ← sameNext, ← sameDestroyed] at moved
    rw [numbers_update, numbers_update]
    exact moved
  · have balanced : ([] ++ (state.vector target).data.toList).Perm
      (state.owned target ++ List.range' state.nextBuffer 0) := by
      rw [owned_some scopeTarget, List.nil_append, List.range'_zero, List.append_nil]
    have moved := (holds.owners.change balanced).transfer source (Function.update_self ..)
    rw [Nat.add_zero, ← sameBuffer, ← freed.released] at moved
    refine (congrArg (Custody · middle.nextBuffer middle.released) (funext fun other => ?_)).mpr moved
    simp only [Vectors.owned, replace, Function.update_apply, freed.vectors, if_neg different.symm]
    by_cases isSource : other = source
    · rw [if_pos isSource, if_neg (isSource ▸ different.symm), if_pos isSource]
      rfl
    · rw [if_neg isSource, if_neg isSource]
      by_cases isTarget : other = target
      · rw [if_pos isTarget, if_pos isTarget, scopeSource]
        rfl
      · rw [if_neg isTarget, if_neg isTarget, if_neg isTarget]

private theorem moveAssign (holds : state.Holds inlineSize elements)
    (aligned : type.primitive ∨ type.sizeOf % 4 = 0)
    {target source : VectorId} (different : target ≠ source) {old : List (Element T)}
    (there : elements source = some list)
    (here : elements target = some old)
    (allocates : (state.vector source).useInlineData →
      Allocates type (state.vector target).capacity list.length) :
    ∃ after now, state.moveAssign type inlineSize target source = .ok after ∧
    now.map value = list.map value ∧
      after.Holds inlineSize (Function.update (Function.update elements source (some [])) target (some now)) := by
  obtain ⟨cleared, ran, capacity, empty, frame⟩ := holds.clear here
  have still : Function.update elements target (some []) source = some list := by
    rw [Function.update_of_ne different.symm, there]
  have sameSource := frame source different.symm
  unfold Vectors.moveAssign
  simp only [ran, bind, Except.bind, sameSource]
  cases mode : (state.vector source).useInlineData with
  | true =>
    obtain ⟨filled, now, extended, same, kept⟩ :=
      empty.extend (Function.update_self ..) aligned (list.map value)
      (by rw [List.length_map, List.length_nil, Nat.zero_add, capacity]; exact allocates mode)
    rw [Function.update_idem] at kept
    obtain ⟨after, finished, _, moved, _⟩ :=
      kept.clear ((Function.update_of_ne different.symm ..).trans there)
    rw [Function.update_comm different] at moved
    refine ⟨after, now, ?_, same, moved⟩
    simp only [if_true, empty.span still, extended, finished]
  | false =>
    obtain ⟨after, taken, moved⟩ :=
      empty.takeBuffer different still (Function.update_self ..) (sameSource ▸ mode)
    rw [Function.update_comm different, Function.update_idem] at moved
    exact ⟨after, list, by simpa using taken, rfl, moved⟩

private theorem construct (holds : state.Holds inlineSize elements)
    (absent : state.vectors id = none) :
    (state.construct inlineSize id).Holds inlineSize (Function.update elements id (some [])) := by
  have sameNumbers : numbers (Function.update elements id (some [])) = numbers elements := by
    rw [numbers_update]
    exact Function.update_eq_self_iff.mpr (by rw [numbers, holds.outside absent]; rfl)
  have sameOwned : (state.construct inlineSize id).owned = state.owned := by
    funext other
    simp only [Vectors.owned, Vectors.construct, replace, Function.update_apply]
    split
    next same =>
      rw [same, absent]
      rfl
    next => rfl
  refine ⟨fun other => ?_, sameNumbers ▸ holds.objects, sameOwned ▸ holds.owners⟩
  simp only [Vectors.construct, replace, Function.update_apply]
  split
  next => exact .some ⟨rfl, Nat.zero_le _, rfl, fun _ => rfl, rfl, _, rfl, Nat.le_refl _, trivial⟩
  next => exact holds.represents other

private theorem leave (holds : state.Holds inlineSize elements) (here : elements id = some list) :
    ∃ after, state.leave id = .ok after ∧
    after.Holds inlineSize (Function.update elements id none) := by
  obtain ⟨cleared, ran, _, empty, _⟩ := holds.clear here
  have nothing : Function.update elements id (some []) id = some [] := Function.update_self ..
  have ⟨_, scope⟩ := empty.represented nothing
  obtain ⟨after, released, freed⟩ :=
    release_spec cleared (cleared.vector id).data (empty.alive nothing)
  have ⟨sameBuffer, sameNext, sameDestroyed⟩ := freed.others
  simp only [Vectors.leave, ran, bind, Except.bind, released]
  refine ⟨_, rfl, fun other => ?_, ?_, ?_⟩
  · simp only [freed.vectors, Function.update_apply]
    split
    next => exact .none
    next different =>
      have frame : ∀ buffer ∈ cleared.owned other, after.buffers buffer =
        cleared.buffers buffer := by
        refine fun buffer member => freed.frame buffer fun owns =>
          different (empty.owners.apart member ?_)
        rw [owned_some scope, owns]
        exact List.mem_singleton_self buffer
      have related := empty.untouched frame
      rwa [Function.update_of_ne different] at related
  · have objects := empty.objects
    rw [numbers_update, ← sameNext, ← sameDestroyed] at objects
    rw [numbers_update]
    exact objects
  · have balanced : ([] ++ (cleared.vector id).data.toList).Perm
      (cleared.owned id ++ List.range' cleared.nextBuffer 0) := by
      rw [owned_some scope, List.nil_append, List.range'_zero, List.append_nil]
    have given := empty.owners.change balanced
    rw [Nat.add_zero, ← sameBuffer, ← freed.released] at given
    refine (congrArg (Custody · after.nextBuffer after.released) (funext fun other => ?_)).mpr given
    simp only [Vectors.owned, freed.vectors, Function.update_apply]
    split <;> rfl

end Holds
end Vectors

def VectorEvent.apply (lists : Contents T) : VectorEvent T → Contents T
  | .construct id | .clear id => Function.update lists id (some [])
  | .append id value => Function.update lists id ((lists id).map fun list => list ++ [value])
  | .extend id more => Function.update lists id ((lists id).map fun list => list ++ more)
  | .ensureCapacity _ _ => lists
  | .copyConstruct target source
  | .copyAssign target source => Function.update lists target (lists source)
  | .moveConstruct target source | .moveAssign target source =>
    Function.update (Function.update lists source (some [])) target (lists source)
  | .leave id => Function.update lists id none

def VectorEvent.lists (history : List (Vectors T × VectorEvent T)) : Contents T :=
  (history.map Prod.snd).foldl VectorEvent.apply fun _ => none

namespace Vectors
variable {state : Vectors T} {elements : Contents (Element T)} {id : VectorId}
  {list : List (Element T)}

private theorem values_some (here : elements id = some list) :
    Element.values elements id = some (list.map value) := by
  rw [Element.values, here, Option.map_some]

theorem Holds.execute (holds : state.Holds inlineSize elements)
    (aligned : type.primitive ∨ type.sizeOf % 4 = 0)
    {event : VectorEvent T} (permitted : state.permitted type inlineSize event) :
    ∃ after elements', state.execute type inlineSize event = .ok after ∧
    after.Holds inlineSize elements' ∧
      Element.values elements' = VectorEvent.apply (Element.values elements) event := by
  cases event with
  | construct id => exact ⟨_, _, rfl, holds.construct permitted, by rw [values_update]; rfl⟩
  | append id value =>
    obtain ⟨scope, allocates⟩ := permitted
    obtain ⟨list, here⟩ := holds.found scope
    rw [(holds.represented here).1.size] at allocates
    obtain ⟨after, now, ran, same, kept⟩ := holds.append here aligned allocates value
    refine ⟨after, _, ran, kept, ?_⟩
    rw [values_update, VectorEvent.apply, values_some here, Option.map_some, Option.map_some, same]
  | extend id values =>
    obtain ⟨scope, allocates⟩ := permitted
    obtain ⟨list, here⟩ := holds.found scope
    rw [(holds.represented here).1.size] at allocates
    obtain ⟨after, now, ran, same, kept⟩ := holds.extend here aligned values allocates
    refine ⟨after, _, ran, kept, ?_⟩
    rw [values_update, VectorEvent.apply, values_some here, Option.map_some, Option.map_some, same]
  | ensureCapacity id newCapacity =>
    obtain ⟨scope, allocates⟩ := permitted
    obtain ⟨list, here⟩ := holds.found scope
    obtain ⟨after, now, ran, _, _, same, kept⟩ := holds.grow here aligned allocates
    refine ⟨after, _, ran, kept, ?_⟩
    rw [values_update, Option.map_some, same, ← values_some here, Function.update_eq_self]
    rfl
  | clear id =>
    obtain ⟨list, here⟩ := holds.found permitted
    obtain ⟨after, ran, _, kept, _⟩ := holds.clear here
    exact ⟨after, _, ran, kept, by rw [values_update]; rfl⟩
  | copyConstruct target source =>
    obtain ⟨absent, scope, allocates⟩ := permitted
    obtain ⟨list, there⟩ := holds.found scope
    have different : target ≠ source := by
      rintro rfl
      cases (holds.outside absent).symm.trans there
    have room : ((state.construct inlineSize target).vector target).capacity = inlineSize :=
      congrArg Vector.capacity (vector_replace ..)
    rw [(holds.represented there).1.size] at allocates
    obtain ⟨after, now, ran, same, kept⟩ := (holds.construct absent).copyAssign aligned different
      ((Function.update_of_ne different.symm ..).trans there) (Function.update_self ..)
        (room.symm ▸ allocates)
    rw [Function.update_idem] at kept
    refine ⟨after, _, ran, kept, ?_⟩
    rw [values_update, VectorEvent.apply, values_some there, Option.map_some, same]
  | moveConstruct target source =>
    obtain ⟨absent, scope, allocates⟩ := permitted
    obtain ⟨list, there⟩ := holds.found scope
    have different : target ≠ source := by
      rintro rfl
      cases (holds.outside absent).symm.trans there
    have room : ((state.construct inlineSize target).vector target).capacity = inlineSize :=
      congrArg Vector.capacity (vector_replace ..)
    have sameSource : (state.construct inlineSize target).vector source = state.vector source :=
      vector_other state different.symm _
    rw [(holds.represented there).1.size] at allocates
    obtain ⟨after, now, ran, same, kept⟩ := (holds.construct absent).moveAssign aligned different
      ((Function.update_of_ne different.symm ..).trans there) (Function.update_self ..)
      (by rw [room, sameSource]; exact allocates)
    rw [Function.update_comm different, Function.update_idem] at kept
    refine ⟨after, _, ran, kept, ?_⟩
    rw [values_update, values_update, VectorEvent.apply, values_some there, Option.map_some,
      Option.map_some, same]
    rfl
  | copyAssign target source =>
    obtain ⟨inside, scope, different, allocates⟩ := permitted
    obtain ⟨old, here⟩ := holds.found inside
    obtain ⟨list, there⟩ := holds.found scope
    rw [(holds.represented there).1.size] at allocates
    obtain ⟨after, now, ran, same, kept⟩ := holds.copyAssign aligned different there here allocates
    refine ⟨after, _, ran, kept, ?_⟩
    rw [values_update, VectorEvent.apply, values_some there, Option.map_some, same]
  | moveAssign target source =>
    obtain ⟨inside, scope, different, allocates⟩ := permitted
    obtain ⟨old, here⟩ := holds.found inside
    obtain ⟨list, there⟩ := holds.found scope
    rw [(holds.represented there).1.size] at allocates
    obtain ⟨after, now, ran, same, kept⟩ := holds.moveAssign aligned different there here allocates
    refine ⟨after, _, ran, kept, ?_⟩
    rw [values_update, values_update, VectorEvent.apply, values_some there, Option.map_some,
      Option.map_some, same]
    rfl
  | leave id =>
    obtain ⟨list, here⟩ := holds.found permitted
    obtain ⟨after, ran, kept⟩ := holds.leave here
    exact ⟨after, _, ran, kept, by rw [values_update]; rfl⟩

end Vectors

/-- Whatever is done to the vectors, each of them is the list that the events make, in
storage of its own. A buffer belongs to one vector, or it has been released exactly once,
and an object is in one vector, or it has been destroyed exactly once. -/
theorem vectors_refine (aligned : type.primitive ∨ type.sizeOf % 4 = 0) {state : Vectors T}
    {history : List (Vectors T × VectorEvent T)}
    (run : (Vectors.machine type inlineSize).Run .initial history state) :
    ∃ elements : Contents (Element T),
      (∀ id, Option.Rel (Vector.Represents inlineSize state.buffers) (state.vectors id) (elements id)) ∧
      (∀ id, (elements id).map (List.map value) = VectorEvent.lists history id) ∧
      (∀ id list, elements id = some list → state.span id = .ok (list.map value)) ∧
      Custody state.owned state.nextBuffer state.released ∧
      Custody (numbers elements) state.next state.destroyed ∧
      ∀ event, state.permitted type inlineSize event →
      ∃ next, state.execute type inlineSize event = .ok next := by
  have holds : ∃ elements, state.Holds inlineSize elements ∧
    Element.values elements = VectorEvent.lists history := by
    refine run.induct (fun history state => ∃ elements, state.Holds inlineSize elements ∧
      Element.values elements = VectorEvent.lists history) ⟨_, .initial, rfl⟩ ?_
    rintro history state event next _ ⟨elements, holds, same⟩ permitted executed
    obtain ⟨after, now, ran, kept, changed⟩ := holds.execute aligned permitted
    cases ran.symm.trans executed
    refine ⟨now, kept, ?_⟩
    rw [changed, same, VectorEvent.lists, VectorEvent.lists, List.map_append, List.foldl_append]
    rfl
  obtain ⟨elements, holds, same⟩ := holds
  refine ⟨elements, holds.represents, fun id => congrFun same id,
    fun id list here => holds.span here, holds.owners, holds.objects,
    fun event permitted => ?_⟩
  obtain ⟨after, _, ran, _⟩ := holds.execute aligned permitted
  exact ⟨after, ran⟩

theorem vectors_refine_three :
    ∃ (state : Vectors Nat) (history : List (Vectors Nat × VectorEvent Nat)),
      (Vectors.machine ⟨false, 4, by decide⟩ 2).Run .initial history state ∧
      history.map Prod.snd = [.construct 0, .append 0 5, .append 0 6, .append 0 7,
        .moveConstruct 1 0, .copyConstruct 2 1, .clear 1] ∧
      ∃ elements : Contents (Element Nat),
        (∀ id, Option.Rel (Vector.Represents 2 state.buffers) (state.vectors id) (elements id)) ∧
        (∀ id, (elements id).map (List.map value) = VectorEvent.lists history id) ∧
        (∀ id list, elements id = some list → state.span id = .ok (list.map value)) ∧
        Custody state.owned state.nextBuffer state.released ∧
        Custody (numbers elements) state.next state.destroyed ∧
        ∀ event, state.permitted ⟨false, 4, by decide⟩ 2 event → ∃ next, state.execute ⟨false, 4, by decide⟩ 2 event = .ok next := by
  have finished : ((Vectors.machine ⟨false, 4, by decide⟩ 2).after (.initial : Vectors Nat) [.construct 0, .append 0 5,
      .append 0 6, .append 0 7, .moveConstruct 1 0, .copyConstruct 2 1, .clear 1]).isSome := by
        decide +kernel
  obtain ⟨state, played⟩ := Option.isSome_iff_exists.mp finished
  obtain ⟨history, run, events⟩ := Machine.run_after played
  exact ⟨state, history, run, events, vectors_refine (.inr (by decide)) run⟩

end PicoOs.Std
