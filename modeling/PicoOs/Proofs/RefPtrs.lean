import PicoOs.Std.RefPtr

/-! Every count is the number of variables that point to the object, whatever is done to
the variables and in which order. -/

namespace PicoOs.Std
open Library

/-- The counts are those of the holders, and an object without any has been destroyed once. -/
structure RefCounted.Counts (objects : RefCounted)
    (holders : ObjectRef → Set VariableId) : Prop where
  counted : ∀ {object count}, objects.refcount object = some count → (holders object).encard = count
  held : ∀ object, objects.refcount object ≠ none ↔ (holders object).Nonempty
  old : ∀ {object}, (holders object).Nonempty → object < objects.next
  once : objects.destroyed.Nodup
  destroyed : ∀ object, object ∈ objects.destroyed ↔ object < objects.next ∧ holders object = ∅

namespace RefCounted.Counts
variable {objects : RefCounted} {holders : ObjectRef → Set VariableId} {object : ObjectRef}
  {target : VariableId}

private theorem initial : RefCounted.initial.Counts fun _ => ∅ where
  counted := nofun
  held _ := ⟨fun present => absurd rfl present, fun ⟨_, member⟩ => member.elim⟩
  old := fun ⟨_, member⟩ => member.elim
  once := .nil
  destroyed _ := ⟨nofun, fun ⟨old, _⟩ => absurd old (Nat.not_lt_zero _)⟩

theorem load (counts : objects.Counts holders) (held : (holders object).Nonempty) :
    ∃ count, objects.load object = .ok (count + 1) ∧
    (holders object).encard = (count + 1 : Nat) := by
  obtain ⟨count, found⟩ := Option.ne_none_iff_exists'.mp ((counts.held object).mpr held)
  have number := counts.counted found
  obtain ⟨less, rfl⟩ : ∃ less, count = less + 1 := by
    refine Nat.exists_eq_succ_of_ne_zero fun zero => ?_
    rw [zero, Nat.cast_zero, Set.encard_eq_zero] at number
    exact held.ne_empty number
  exact ⟨less, by simp only [RefCounted.load, found], number⟩

theorem recount (counts : objects.Counts holders) (before : (holders object).Nonempty)
    {now : Set VariableId} {count : Nat}
    (number : now.encard = (count + 1 : Nat)) :
    (objects.store object (count + 1)).Counts (Function.update holders object now) := by
  have after : now.Nonempty := by
    rw [← Set.encard_ne_zero, number]
    exact Nat.cast_ne_zero.mpr (Nat.succ_ne_zero count)
  have still : ∀ other, (Function.update holders object now other).Nonempty ↔
    (holders other).Nonempty := by
    intro other
    rw [Function.update_apply]
    split
    next same => exact iff_of_true after (same ▸ before)
    next => exact Iff.rfl
  refine ⟨fun {other found} present => ?_, fun other => ?_,
    fun {other} kept => counts.old ((still other).mp kept), counts.once,
    fun other => ?_⟩
  · simp only [RefCounted.store, Function.update_apply] at present ⊢
    split at present
    next same =>
      cases present
      rwa [if_pos same]
    next different =>
      rw [if_neg different]
      exact counts.counted present
  · rw [still, ← counts.held]
    simp only [RefCounted.store, Function.update_apply]
    split
    next same => exact iff_of_true (Option.some_ne_none _) ((counts.held other).mpr (same ▸ before))
    next => exact Iff.rfl
  · rw [← Set.not_nonempty_iff_eq_empty, still, Set.not_nonempty_iff_eq_empty]
    exact counts.destroyed other

private theorem delete (counts : objects.Counts holders) (before : (holders object).Nonempty)
    (count : Nat) :
    ((objects.store object count).delete object).Counts (Function.update holders object ∅) := by
  have gone : object ∉ objects.destroyed :=
    fun member => before.ne_empty ((counts.destroyed object).mp member).2
  refine ⟨fun {other found} present => ?_, fun other => ?_, fun {other} kept => ?_,
    List.nodup_cons.mpr ⟨gone, counts.once⟩,
    fun other => ?_⟩
  all_goals simp only [RefCounted.delete, RefCounted.store, Function.update_apply, List.mem_cons] at *
  · split at present
    next => cases present
    next different =>
      rw [if_neg different]
      exact counts.counted present
  · split
    next => simp
    next different => exact counts.held other
  · split at kept
    next => exact absurd kept Set.not_nonempty_empty
    next => exact counts.old kept
  · split
    next same => simp [same, counts.old before]
    next different =>
      rw [counts.destroyed other]
      simp [different]

private theorem ref (counts : objects.Counts holders) (held : (holders object).Nonempty)
    (new : target ∉ holders object) :
    ∃ after, objects.ref object = .ok after ∧ after.next = objects.next ∧
      after.Counts (Function.update holders object (insert target (holders object))) := by
  obtain ⟨count, loaded, number⟩ := counts.load held
  have more : (insert target (holders object)).encard = (count + 1 + 1 : Nat) := by
    rw [Set.encard_insert_of_notMem new, number]
    rfl
  refine ⟨objects.store object (count + 1 + 1), ?_, rfl, counts.recount held more⟩
  simp only [RefCounted.ref, loaded, bind, Except.bind]
  exact if_pos (Nat.le_add_left 1 count)

private theorem unref (counts : objects.Counts holders) (member : target ∈ holders object) :
    ∃ after, objects.unref object = .ok after ∧ after.next = objects.next ∧
      after.Counts (Function.update holders object (holders object \ {target})) := by
  have held : (holders object).Nonempty := ⟨target, member⟩
  obtain ⟨count, loaded, number⟩ := counts.load held
  have less : (holders object \ {target}).encard = count := by
    rw [Set.encard_sdiff_singleton_of_mem member, number]
    rfl
  simp only [RefCounted.unref, loaded, bind, Except.bind, if_pos (Nat.succ_pos count),
    Nat.add_sub_cancel]
  cases count with
  | zero =>
    rw [Nat.cast_zero, Set.encard_eq_zero] at less
    rw [if_pos rfl, less]
    exact ⟨_, rfl, rfl, counts.delete held 0⟩
  | succ count =>
    rw [if_neg (Nat.succ_ne_zero count)]
    exact ⟨_, rfl, rfl, counts.recount held less⟩

private theorem create (counts : objects.Counts holders) (target : VariableId) :
    objects.create.2.Counts (Function.update holders objects.next {target}) := by
  have unused : ∀ {other}, (holders other).Nonempty → other ≠ objects.next :=
    fun kept => Nat.ne_of_lt (counts.old kept)
  refine ⟨fun {other found} present => ?_, fun other => ?_, fun {other} kept => ?_, counts.once,
    fun other => ?_⟩
  all_goals simp only [RefCounted.create, RefCounted.store, Function.update_apply] at *
  · split at present
    next same =>
      cases present
      rw [if_pos same, Set.encard_singleton]
      rfl
    next different =>
      rw [if_neg different]
      exact counts.counted present
  · split
    next => simp
    next => exact counts.held other
  · split at kept
    next same => exact same ▸ Nat.lt_succ_self _
    next => exact Nat.lt_succ_of_lt (counts.old kept)
  · rw [counts.destroyed other]
    split
    next same => simp [same]
    next different => rw [Nat.lt_succ_iff_lt_or_eq, or_iff_left different]

/-- A reference that moves to another variable leaves the number as it was. -/
theorem transfer (counts : objects.Counts holders) {now : ObjectRef → Set VariableId}
    (same : ∀ object, (now object).encard = (holders object).encard) : objects.Counts now := by
  have still : ∀ object, (now object).Nonempty ↔ (holders object).Nonempty := fun object => by
    rw [← Set.encard_ne_zero, same, Set.encard_ne_zero]
  refine ⟨fun {object count} present => (same object).trans (counts.counted present),
    fun object => ?_, fun {object} kept => ?_,
    counts.once, fun object => ?_⟩
  · rw [still]
    exact counts.held object
  · exact counts.old ((still object).mp kept)
  · rw [← Set.not_nonempty_iff_eq_empty, still, Set.not_nonempty_iff_eq_empty]
    exact counts.destroyed object

end RefCounted.Counts

namespace RefPtrs
variable {state : RefPtrs} {object : ObjectRef} {target source : VariableId}

def holders (state : RefPtrs) (object : ObjectRef) : Set VariableId :=
  {target | state.pointers target = some (some object)}

def Exact (state : RefPtrs) : Prop := state.objects.Counts state.holders

theorem mem_holders_iff : target ∈ state.holders object ↔ state.pointer target = some object := by
  unfold pointer
  rw [holders, Set.mem_ofPred_eq]
  cases state.pointers target <;> simp

theorem holders_assign (state : RefPtrs) (target : VariableId) (pointer : Option ObjectRef)
    (object : ObjectRef) :
    (state.assign target pointer).holders object =
      if pointer = some object then insert target (state.holders object) else state.holders object \ {target} := by
  ext other
  simp only [holders, assign, Function.update_apply, Set.mem_ofPred_eq]
  by_cases same : other = target <;> by_cases points : pointer = some object <;> simp [same, points]

theorem holders_clear (state : RefPtrs) (target : VariableId) (object : ObjectRef) :
    (state.assign target none).holders object = state.holders object \ {target} := by
  rw [holders_assign, if_neg nofun]

theorem holders_null (null : state.pointer target = none) (object : ObjectRef) :
    target ∉ state.holders object := by
  rw [mem_holders_iff, null]
  nofun

structure Points (state after : RefPtrs) (target : VariableId)
    (pointer : Option ObjectRef) : Prop where
  exact : after.Exact
  pointers : after.pointers = Function.update state.pointers target (some pointer)
  next : after.objects.next = state.objects.next

namespace Exact

private theorem initial : RefPtrs.initial.Exact :=
  RefCounted.Counts.initial.transfer fun _ =>
    congrArg Set.encard (by ext; simp [holders, RefPtrs.initial])

theorem null (exact : state.Exact) (null : state.pointer target = none) :
    Points state (state.assign target none) target none := by
  refine ⟨exact.transfer fun object => ?_, rfl, rfl⟩
  rw [holders_clear, Set.sdiff_singleton_eq_self (holders_null null object)]

theorem clear (exact : state.Exact) (target : VariableId) :
    ∃ after, state.clear target = .ok after ∧ Points state after target none := by
  unfold RefPtrs.clear
  cases points : state.pointer target with
  | none => exact ⟨_, rfl, exact.null points⟩
  | some object =>
    obtain ⟨objects, ran, next, counts⟩ := exact.unref (mem_holders_iff.mpr points)
    simp only [ran, bind, Except.bind]
    refine ⟨_, rfl, counts.transfer fun other => ?_, rfl, next⟩
    rw [holders_clear { state with objects } target other, Function.update_apply]
    split
    next same => rw [same]; rfl
    next different =>
      have apart : target ∉ state.holders other := by
        rw [mem_holders_iff, points]
        exact fun same => different (Option.some.inj same).symm
      exact congrArg Set.encard (Set.sdiff_singleton_eq_self apart)

theorem refPointer (exact : state.Exact) (null : state.pointer target = none)
    {pointer : Option ObjectRef}
    (alive : ∀ object, pointer = some object → (state.holders object).Nonempty) :
    ∃ after, (state.assign target pointer).refPointer target = .ok after ∧
    Points state after target pointer := by
  have assigned : (state.assign target pointer).pointer target = pointer := by
    simp only [RefPtrs.pointer, assign, Function.update_self, Option.getD_some]
  unfold RefPtrs.refPointer
  rw [assigned]
  cases pointer with
  | none => exact ⟨_, rfl, exact.null null⟩
  | some object =>
    obtain ⟨objects, ran, next, counts⟩ := exact.ref (alive object rfl) (holders_null null object)
    have found : (state.assign target (some object)).objects.ref object = .ok objects := ran
    simp only [found, bind, Except.bind]
    refine ⟨_, rfl, counts.transfer fun other => ?_, rfl, next⟩
    have gained : _ = _ := holders_assign state target (some object) other
    rw [Function.update_apply]
    refine congrArg Set.encard (gained.trans ?_)
    split
    next same =>
      cases same
      rw [if_pos rfl]
    next different =>
      rw [if_neg fun same => different (congrArg some same.symm),
        Set.sdiff_singleton_eq_self (holders_null null other)]

private theorem move (exact : state.Exact) (null : state.pointer target = none)
    (source : VariableId) :
    (state.move target source).Exact ∧ (state.move target source).objects = state.objects ∧
      (state.move target source).pointers =
        Function.update (Function.update state.pointers source (some none)) target
          (some (state.pointer source)) := by
  refine ⟨exact.transfer fun object => ?_, rfl, rfl⟩
  have notTarget := holders_null null object
  rw [RefPtrs.move, holders_assign, holders_clear]
  split
  next points => exact Set.encard_exchange notTarget (mem_holders_iff.mpr points)
  next elsewhere =>
    have notSource : source ∉ state.holders object :=
      fun member => elsewhere (mem_holders_iff.mp member)
    rw [Set.sdiff_singleton_eq_self notSource, Set.sdiff_singleton_eq_self notTarget]

end Exact

structure Counted (state after : RefPtrs) : Prop where
  exact : after.Exact
  older : state.objects.next ≤ after.objects.next
  held : ∀ object, state.objects.next ≤ object → object < after.objects.next →
    (after.holders object).Nonempty

theorem Counted.of_next {after : RefPtrs} (kept : after.Exact)
    (next : after.objects.next = state.objects.next) :
    Counted state after :=
  ⟨kept, Nat.le_of_eq next.symm, fun _ old new => absurd (next ▸ new) (Nat.not_lt.mpr old)⟩

private theorem Points.counted {after : RefPtrs} {pointer : Option ObjectRef}
    (points : Points state after target pointer) :
    Counted state after :=
  .of_next points.exact points.next

private theorem pointer_outside (outside : state.pointers target = none) :
    state.pointer target = none := by
  rw [pointer, outside]
  rfl

private theorem Points.pointer {after : RefPtrs} {pointer : Option ObjectRef}
    (points : Points state after target pointer) :
    after.pointer target = pointer := by
  rw [RefPtrs.pointer, points.pointers, Function.update_self, Option.getD_some]

namespace Exact

/-- The pointer of a variable in scope is that of an object that exists. -/
theorem copy (exact : state.Exact) (null : state.pointer target = none) (source : VariableId) :
    ∃ after, state.copy target source = .ok after ∧
    Points state after target (state.pointer source) :=
  exact.refPointer null fun _ points => ⟨source, mem_holders_iff.mpr points⟩

private theorem construct (exact : state.Exact) (null : state.pointer target = none) :
    ∃ after, state.construct target = .ok after ∧ Counted state after := by
  have created := RefCounted.Counts.create exact target
  have fresh : state.objects.create.2.load state.objects.next = .ok 1 := by
    simp only [RefCounted.load, RefCounted.create, RefCounted.store, Function.update_self]
  have loaded : state.objects.create.2.load state.objects.create.1 = .ok 1 := fresh
  simp only [RefPtrs.construct, loaded, bind, Except.bind]
  refine ⟨_, rfl, created.transfer fun object => ?_, Nat.le_succ _, fun object old new => ?_⟩
  · have assigned : _ = _ := holders_assign { state with objects := state.objects.create.2 } target
      (some state.objects.next) object
    refine congrArg Set.encard (assigned.trans ?_)
    rw [Function.update_apply]
    split
    next same =>
      obtain rfl := Option.some.inj same
      have unused : state.holders state.objects.next = ∅ :=
        Set.not_nonempty_iff_eq_empty.mp fun held =>
          Nat.lt_irrefl _ (RefCounted.Counts.old exact held)
      rw [if_pos rfl]
      exact (congrArg (insert target) unused).trans (insert_empty_eq target)
    next different =>
      rw [if_neg fun same => different (congrArg some same.symm)]
      exact Set.sdiff_singleton_eq_self (holders_null null object)
  · obtain rfl : object = state.objects.next := Nat.le_antisymm (Nat.lt_succ_iff.mp new) old
    refine ⟨target, ?_⟩
    exact Function.update_self ..

private theorem leave (exact : state.Exact) (target : VariableId) :
    ∃ after, state.leave target = .ok after ∧ Counted state after := by
  obtain ⟨cleared, ran, points⟩ := exact.clear target
  simp only [RefPtrs.leave, ran, bind, Except.bind]
  refine ⟨_, rfl, .of_next (points.exact.transfer fun object => congrArg Set.encard ?_) points.next⟩
  ext other
  simp only [holders, Set.mem_ofPred_eq, points.pointers, Function.update_apply]
  split <;> simp

/-- Every operation on variables in scope succeeds and keeps the counts. -/
theorem execute (exact : state.Exact) {event : RefEvent} (permitted : state.permitted event) :
    ∃ after, state.execute event = .ok after ∧ Counted state after := by
  cases event with
  | null target => exact ⟨_, rfl, (exact.null (pointer_outside permitted)).counted⟩
  | construct target => exact exact.construct (pointer_outside permitted)
  | refer target object =>
    have alive := (RefCounted.Counts.held exact object).mp permitted.2
    obtain ⟨after, ran, points⟩ :=
      exact.refPointer (pointer_outside permitted.1) fun _ same => Option.some.inj same ▸ alive
    exact ⟨after, ran, points.counted⟩
  | copy target source =>
    obtain ⟨after, ran, points⟩ := exact.copy (pointer_outside permitted.1) source
    exact ⟨after, ran, points.counted⟩
  | move target source =>
    have ⟨kept, objects, _⟩ := exact.move (pointer_outside permitted.1) source
    exact ⟨_, rfl, .of_next kept (congrArg RefCounted.next objects)⟩
  | copyAssign target source =>
    obtain ⟨cleared, ran, points⟩ := exact.clear target
    obtain ⟨after, copied, again⟩ := points.exact.copy points.pointer source
    refine ⟨after, ?_, .of_next again.exact (again.next.trans points.next)⟩
    simp only [RefPtrs.execute, copyAssign, ran, bind, Except.bind, copied]
  | moveAssign target source =>
    obtain ⟨cleared, ran, points⟩ := exact.clear target
    have ⟨kept, objects, _⟩ := points.exact.move points.pointer source
    refine ⟨cleared.move target source, ?_,
      .of_next kept ((congrArg RefCounted.next objects).trans points.next)⟩
    simp only [RefPtrs.execute, moveAssign, ran, bind, Except.bind]
  | clear target =>
    obtain ⟨after, ran, points⟩ := exact.clear target
    exact ⟨after, ran, points.counted⟩
  | leave target => exact exact.leave target

end Exact

private theorem exact_run {history : List (RefPtrs × RefEvent)}
    (run : machine.Run .initial history state) : state.Exact := by
  refine Machine.Reachable.invariant Exact .initial ?_ ⟨history, run⟩
  intro state event next exact permitted executed
  obtain ⟨after, ran, counted⟩ := exact.execute permitted
  cases ran.symm.trans executed
  exact counted.exact

end RefPtrs

/-- Whatever is done to the variables, the count of an object is the number of variables
that point to it, the object is destroyed by the event that takes the last of them away and
by no other, and nothing is used after that. -/
theorem refcounts_exact {state : RefPtrs} {history : List (RefPtrs × RefEvent)}
    (run : RefPtrs.machine.Run .initial history state) :
    (∀ object count, state.objects.refcount object = some count →
      (state.holders object).encard = count) ∧
      (∀ target object, state.pointers target = some (some object) →
        state.objects.refcount object ≠ none ∧ object ∉ state.objects.destroyed) ∧
      (∀ object, state.objects.refcount object ≠ none ↔ object < state.objects.next ∧
        object ∉ state.objects.destroyed) ∧
      state.objects.destroyed.Nodup ∧
      ∀ event, state.permitted event → ∃ next, state.execute event = .ok next ∧
        ∀ object, object ∈ next.objects.destroyed ∧ object ∉ state.objects.destroyed ↔
          (state.holders object).Nonempty ∧ next.holders object = ∅ := by
  have exact := RefPtrs.exact_run run
  have ⟨counted, held, old, once, destroyed⟩ := exact
  have apart : ∀ object, (state.holders object).Nonempty → object ∉ state.objects.destroyed :=
    fun object nonempty member =>
    nonempty.ne_empty ((destroyed object).mp member).2
  refine ⟨fun object count => counted, fun target object points => ?_, fun object => ?_, once,
    fun event permitted => ?_⟩
  · have nonempty : (state.holders object).Nonempty := ⟨target, points⟩
    exact ⟨(held object).mpr nonempty, apart object nonempty⟩
  · simp only [held, destroyed, not_and, ← Set.nonempty_iff_ne_empty, ← ne_eq]
    exact ⟨fun nonempty => ⟨old nonempty, fun _ => nonempty⟩, fun ⟨small, implied⟩ => implied small⟩
  · obtain ⟨next, ran, after⟩ := exact.execute permitted
    refine ⟨next, ran, fun object => ?_⟩
    rw [after.exact.destroyed, destroyed]
    constructor
    · rintro ⟨⟨small, empty⟩, was⟩
      refine ⟨Set.nonempty_iff_ne_empty.mpr fun unheld => ?_, empty⟩
      by_cases present : object < state.objects.next
      · exact was ⟨present, unheld⟩
      · exact (after.held object (Nat.not_lt.mp present) small).ne_empty empty
    · rintro ⟨nonempty, empty⟩
      exact ⟨⟨Nat.lt_of_lt_of_le (old nonempty) after.older, empty⟩,
        fun ⟨_, unheld⟩ => nonempty.ne_empty unheld⟩

theorem refcounts_exact_twice :
    ∃ state history, RefPtrs.machine.after .initial [.construct 0, .copy 1 0, .copyAssign 0 0,
      .refer 2 0] = some state ∧
      RefPtrs.machine.Run .initial history state ∧
      (∀ object count, state.objects.refcount object = some count →
        (state.holders object).encard = count) ∧
      (∀ target object, state.pointers target = some (some object) →
        state.objects.refcount object ≠ none ∧ object ∉ state.objects.destroyed) ∧
      (∀ object, state.objects.refcount object ≠ none ↔ object < state.objects.next ∧
        object ∉ state.objects.destroyed) ∧
      state.objects.destroyed.Nodup ∧
      ∀ event, state.permitted event → ∃ next, state.execute event = .ok next ∧
        ∀ object, object ∈ next.objects.destroyed ∧ object ∉ state.objects.destroyed ↔
          (state.holders object).Nonempty ∧ next.holders object = ∅ := by
  have finished : (RefPtrs.machine.after .initial [.construct 0, .copy 1 0, .copyAssign 0 0,
    .refer 2 0]).isSome := by decide
  obtain ⟨state, played⟩ := Option.isSome_iff_exists.mp finished
  obtain ⟨history, run⟩ := Machine.reachable_after played
  exact ⟨state, history, played, run, refcounts_exact run⟩

end PicoOs.Std
