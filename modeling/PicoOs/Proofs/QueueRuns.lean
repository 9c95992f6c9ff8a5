import PicoOs.Library.Custody
import PicoOs.Proofs.CircularQueues
import PicoOs.Proofs.Elements

/-! Circular queues are deques of fixed size, whatever is done to them and however often
they wrap around. -/

namespace PicoOs.Std
open Library Element
variable {T : Type u} {capacity : Nat}

def QueueEvent.apply (deques : Contents T) : QueueEvent T → Contents T
  | .construct id | .clear id => Function.update deques id (some [])
  | .enqueue id value => Function.update deques id ((deques id).map fun list => list ++ [value])
  | .enqueueFront id value => Function.update deques id ((deques id).map fun list => value :: list)
  | .dequeue id => Function.update deques id ((deques id).map List.tail)
  | .moveConstruct target source | .moveAssign target source =>
    Function.update (Function.update deques source (some [])) target (deques source)
  | .leave id => Function.update deques id none

def QueueEvent.deques (history : List (CircularQueues T capacity × QueueEvent T)) : Contents T :=
  (history.map Prod.snd).foldl QueueEvent.apply fun _ => none

/-- The queue is the list: nothing is read from a slot without an object, and the first
value is what is taken out. -/
structure CircularQueue.IsDeque (queue : CircularQueue T capacity) (list : List T) : Prop where
  offset : queue.offset < capacity
  size : queue.size = list.length
  room : list.length ≤ capacity
  front : queue.front = if filled : list ≠ [] then .ok (list.head filled) else .error .empty
  back : queue.back = if filled : list ≠ [] then .ok (list.getLast filled) else .error .empty
  get : ∀ index, queue.get index = if below : index < list.length then .ok list[index]
    else .error .empty
  taken : Prod.fst <$> queue.dequeue = queue.front

namespace CircularQueues
variable {state : CircularQueues T capacity} {elements : Contents (Element T)} {id : QueueId}

/-- The queues hold the objects, and an object that is in none of them has been destroyed once. -/
structure Holds (state : CircularQueues T capacity) (elements : Contents (Element T)) : Prop where
  represents : ∀ id, Option.Rel CircularQueue.Represents (state.queues id) (elements id)
  custody : Custody (numbers elements) state.next state.destroyed

namespace Holds

private theorem initial : (CircularQueues.initial : CircularQueues T capacity).Holds
    fun _ => none :=
  ⟨fun _ => .none, .initial⟩

theorem represented (holds : state.Holds elements) {list : List (Element T)}
    (here : elements id = some list) :
    (state.queue id).Represents list := by
  have related := holds.represents id
  rw [here] at related
  unfold queue
  cases scope : state.queues id with
  | none => cases scope ▸ related
  | some queue =>
    cases scope ▸ related with
    | some represents => exact represents

theorem found (holds : state.Holds elements) (scope : (state.queues id).isSome) :
    ∃ list, elements id = some list := by
  have related := holds.represents id
  cases here : elements id with
  | none =>
    rw [here] at related
    cases absent : state.queues id with
    | none => cases absent ▸ scope
    | some queue => cases absent ▸ related
  | some list => exact ⟨list, rfl⟩

theorem outside (holds : state.Holds elements) (absent : state.queues id = none) :
    elements id = none := by
  have related := holds.represents id
  rw [absent] at related
  cases here : elements id with
  | none => rfl
  | some list => cases here ▸ related

theorem replace (holds : state.Holds elements) {queue : CircularQueue (Element T) capacity}
    {list now : List (Element T)}
    (here : elements id = some list) (represents : queue.Represents now) (made : Nat)
    (released : List Nat)
    (balanced : (now.map Element.number ++ released).Perm (list.map Element.number ++
      List.range' state.next made)) :
    Holds { state.replace id queue with next := state.next + made, destroyed := released ++ state.destroyed }
      (Function.update elements id (some now)) := by
  refine ⟨fun other => ?_, ?_⟩
  · simp only [CircularQueues.replace, Function.update_apply]
    split
    next => exact .some represents
    next => exact holds.represents other
  · rw [numbers_update]
    exact holds.custody.change (by rwa [numbers, here])

theorem enqueue (holds : state.Holds elements) {list : List (Element T)} (here : elements id = some list)
    (room : list.length < capacity) (value : T) :
    ∃ after, state.enqueue id value = .ok after ∧
      after.Holds (Function.update elements id (some (list ++ [⟨state.next, value⟩]))) := by
  have result := (holds.represented here).enqueue ⟨state.next, value⟩
  rw [if_pos room] at result
  obtain ⟨queue, ran, longer⟩ := result
  simp only [CircularQueues.enqueue, ran, bind, Except.bind]
  refine ⟨_, rfl, holds.replace here longer 1 [] ?_⟩
  rw [List.append_nil, List.map_append]
  exact .refl _

private theorem enqueueFront (holds : state.Holds elements) (small : 3 * capacity < 2 ^ 32)
    {list : List (Element T)}
    (here : elements id = some list) (room : list.length < capacity) (value : T) :
    ∃ after, state.enqueueFront id value = .ok after ∧
      after.Holds (Function.update elements id (some (⟨state.next, value⟩ :: list))) := by
  obtain ⟨queue, ran, longer⟩ :=
    (holds.represented here).enqueueFront small room ⟨state.next, value⟩
  simp only [CircularQueues.enqueueFront, ran, bind, Except.bind]
  refine ⟨_, rfl, holds.replace here longer 1 [] ?_⟩
  rw [List.append_nil]
  exact (List.perm_append_singleton _ _).symm

theorem dequeue (holds : state.Holds elements) (small : 3 * capacity < 2 ^ 32) {element : Element T}
    {rest : List (Element T)}
    (here : elements id = some (element :: rest)) :
    ∃ after, state.dequeue id = .ok (element.value, after) ∧
    after.Holds (Function.update elements id (some rest)) := by
  obtain ⟨queue, ran, shorter⟩ := (holds.represented here).dequeue (by omega)
  simp only [CircularQueues.dequeue, ran, bind, Except.bind]
  refine ⟨_, rfl, holds.replace here shorter 0 [element.number] ?_⟩
  rw [List.range'_zero, List.append_nil]
  exact List.perm_append_singleton _ _

private theorem clearLoop (small : 3 * capacity < 2 ^ 32) {list : List (Element T)}
    (holds : state.Holds elements)
    (here : elements id = some list) :
    ∃ after, CircularQueues.clearLoop id list.length state = .ok after ∧
    after.Holds (Function.update elements id (some [])) := by
  induction list generalizing state elements with
  | nil => exact ⟨state, rfl, by rwa [← here, Function.update_eq_self]⟩
  | cons element rest ih =>
    obtain ⟨middle, ran, shorter⟩ := holds.dequeue small here
    obtain ⟨after, cleared, empty⟩ := ih shorter (Function.update_self ..)
    rw [Function.update_idem] at empty
    refine ⟨after, ?_, empty⟩
    simp only [List.length_cons, CircularQueues.clearLoop, ran, bind, Except.bind, cleared]

theorem clear (holds : state.Holds elements) (small : 3 * capacity < 2 ^ 32)
    {list : List (Element T)}
    (here : elements id = some list) :
    ∃ after, state.clear id = .ok after ∧ after.Holds (Function.update elements id (some [])) := by
  rw [CircularQueues.clear, (holds.represented here).size]
  exact holds.clearLoop small here

private theorem transfer (small : 3 * capacity < 2 ^ 32) {target source : QueueId}
    (different : target ≠ source)
    {list kept : List (Element T)} (holds : state.Holds elements)
    (there : elements source = some list)
    (here : elements target = some kept) (room : kept.length + list.length ≤ capacity) :
    ∃ after now, CircularQueues.transfer target source list.length state = .ok after ∧
      after.Holds (Function.update (Function.update elements source (some [])) target (some now)) ∧
      now.map Element.value = (kept ++ list).map Element.value := by
  induction list generalizing state elements kept with
  | nil =>
    refine ⟨state, kept, rfl, ?_, by rw [List.append_nil]⟩
    rw [← there, Function.update_eq_self, ← here, Function.update_eq_self]
    exact holds
  | cons element rest ih =>
    rw [List.length_cons] at room
    obtain ⟨taken, dequeued, shorter⟩ := holds.dequeue small there
    have kept' : Function.update elements source (some rest) target = some kept := by
      rw [Function.update_of_ne different, here]
    obtain ⟨middle, enqueued, longer⟩ := shorter.enqueue kept' (by omega) element.value
    obtain ⟨after, now, ran, moved, same⟩ := ih longer
      (by rw [Function.update_of_ne different.symm, Function.update_self]) (Function.update_self ..)
      (by rw [List.length_append, List.length_singleton]; omega)
    refine ⟨after, now, ?_, ?_, by simp [same]⟩
    · simp only [List.length_cons, CircularQueues.transfer, dequeued, bind,
        Except.bind, enqueued, ran]
    · rwa [Function.update_comm different, Function.update_idem, Function.update_idem] at moved

private theorem moveAssign (holds : state.Holds elements) (small : 3 * capacity < 2 ^ 32)
    {target source : QueueId}
    (different : target ≠ source) {list old : List (Element T)}
    (there : elements source = some list)
    (here : elements target = some old) :
    ∃ after now, state.moveAssign target source = .ok after ∧
      after.Holds (Function.update (Function.update elements source (some [])) target (some now)) ∧
      now.map Element.value = list.map Element.value := by
  obtain ⟨cleared, ran, empty⟩ := holds.clear small here
  have still : Function.update elements target (some []) source = some list := by
    rw [Function.update_of_ne different.symm, there]
  have represents := empty.represented still
  obtain ⟨after, now, moved, result, same⟩ :=
    empty.transfer small different still (Function.update_self ..)
    (by simpa using represents.ring.fits)
  rw [Function.update_comm different, Function.update_idem] at result
  have nothing : (after.queue source).size = 0 := by
    have left : Function.update (Function.update elements source (some [])) target (some now)
      source = some [] := by
      rw [Function.update_of_ne different.symm, Function.update_self]
    exact (result.represented left).size
  refine ⟨after, now, ?_, result, same⟩
  simp only [CircularQueues.moveAssign, ran, bind, Except.bind, represents.size, moved,
    if_pos nothing]

private theorem construct (holds : state.Holds elements) (positive : 0 < capacity)
    (outside : elements id = none) :
    (state.construct id).Holds (Function.update elements id (some [])) := by
  have same : numbers (Function.update elements id (some [])) = numbers elements := by
    rw [numbers_update]
    exact Function.update_eq_self_iff.mpr (by rw [numbers, outside]; rfl)
  refine ⟨fun other => ?_, same ▸ holds.custody⟩
  simp only [CircularQueues.construct, CircularQueues.replace, Function.update_apply]
  split
  next => exact .some (.construct positive)
  next => exact holds.represents other

private theorem leave (holds : state.Holds elements) (small : 3 * capacity < 2 ^ 32)
    {list : List (Element T)}
    (here : elements id = some list) :
    ∃ after, state.leave id = .ok after ∧ after.Holds (Function.update elements id none) := by
  obtain ⟨cleared, ran, empty⟩ := holds.clear small here
  simp only [CircularQueues.leave, ran, bind, Except.bind]
  refine ⟨_, rfl, fun other => ?_, ?_⟩
  · have related := empty.represents other
    simp only [Function.update_apply] at related ⊢
    split
    next => exact .none
    next different => rwa [if_neg different] at related
  · have custody := empty.custody
    rw [numbers_update] at custody ⊢
    exact custody

end Holds

private theorem Holds.execute (holds : state.Holds elements) (positive : 0 < capacity)
    (small : 3 * capacity < 2 ^ 32)
    {event : QueueEvent T} (permitted : state.permitted event) :
    ∃ after elements', state.execute event = .ok after ∧ after.Holds elements' ∧
      Element.values elements' = QueueEvent.apply (Element.values elements) event := by
  cases event with
  | construct id =>
    refine ⟨_, _, rfl, holds.construct positive (holds.outside permitted), ?_⟩
    rw [values_update]
    rfl
  | enqueue id value =>
    obtain ⟨scope, room⟩ := permitted
    obtain ⟨list, here⟩ := holds.found scope
    rw [(holds.represented here).size] at room
    obtain ⟨after, ran, longer⟩ := holds.enqueue here room value
    refine ⟨after, _, ran, longer, ?_⟩
    rw [values_update, QueueEvent.apply, Element.values, here]
    simp
  | enqueueFront id value =>
    obtain ⟨scope, room⟩ := permitted
    obtain ⟨list, here⟩ := holds.found scope
    rw [(holds.represented here).size] at room
    obtain ⟨after, ran, longer⟩ := holds.enqueueFront small here room value
    refine ⟨after, _, ran, longer, ?_⟩
    rw [values_update, QueueEvent.apply, Element.values, here]
    simp
  | dequeue id =>
    obtain ⟨scope, filled⟩ := permitted
    obtain ⟨list, here⟩ := holds.found scope
    rw [(holds.represented here).size] at filled
    obtain ⟨element, rest, rfl⟩ := List.exists_cons_of_length_pos filled
    obtain ⟨after, ran, shorter⟩ := holds.dequeue small here
    refine ⟨after, _, ?_, shorter, ?_⟩
    · simp only [CircularQueues.execute, ran, Functor.map, Except.map]
    · rw [values_update, QueueEvent.apply, Element.values, here]
      simp
  | clear id =>
    obtain ⟨list, here⟩ := holds.found permitted
    obtain ⟨after, ran, empty⟩ := holds.clear small here
    refine ⟨after, _, ran, empty, ?_⟩
    rw [values_update]
    rfl
  | moveConstruct target source =>
    obtain ⟨outside, scope⟩ := permitted
    obtain ⟨list, there⟩ := holds.found scope
    have absent := holds.outside outside
    have different : target ≠ source := by
      rintro rfl
      cases absent.symm.trans there
    obtain ⟨after, now, ran, moved, same⟩ :=
      (holds.construct positive absent).moveAssign small different
      ((Function.update_of_ne different.symm ..).trans there) (Function.update_self ..)
    rw [Function.update_comm different, Function.update_idem] at moved
    refine ⟨after, _, ran, moved, ?_⟩
    rw [values_update, values_update, QueueEvent.apply, Element.values, there, Option.map_some,
      Option.map_some, same]
    rfl
  | moveAssign target source =>
    obtain ⟨inside, scope, different⟩ := permitted
    obtain ⟨old, here⟩ := holds.found inside
    obtain ⟨list, there⟩ := holds.found scope
    obtain ⟨after, now, ran, moved, same⟩ := holds.moveAssign small different there here
    refine ⟨after, _, ran, moved, ?_⟩
    rw [values_update, values_update, QueueEvent.apply, Element.values, there, Option.map_some,
      Option.map_some, same]
    rfl
  | leave id =>
    obtain ⟨list, here⟩ := holds.found permitted
    obtain ⟨after, ran, gone⟩ := holds.leave small here
    refine ⟨after, _, ran, gone, ?_⟩
    rw [values_update]
    rfl

end CircularQueues

private theorem CircularQueue.Represents.isDeque {queue : CircularQueue T capacity} {list : List T}
    (represents : queue.Represents list)
    (small : 3 * capacity < 2 ^ 32) : queue.IsDeque list := by
  refine ⟨represents.inside, represents.size, represents.ring.fits, ?_, represents.back small,
    represents.get small, ?_⟩
  · rw [represents.front small]
    cases list <;> rfl
  · unfold CircularQueue.dequeue
    cases queue.front <;> rfl

/-- Whatever is done to queues of one size, each of them is the deque that the events make,
and an object that was made in a slot is in one of the queues, or it has been destroyed
exactly once. -/
theorem circular_queues_refine (positive : 0 < capacity) (small : 3 * capacity < 2 ^ 32)
    {state : CircularQueues T capacity}
    {history : List (CircularQueues T capacity × QueueEvent T)}
    (run : CircularQueues.machine.Run .initial history state) :
    ∃ elements : Contents (Element T),
      (∀ id, Option.Rel CircularQueue.IsDeque (state.queues id) (elements id)) ∧
      (∀ id, (elements id).map (List.map Element.value) = QueueEvent.deques history id) ∧
      Custody (numbers elements) state.next state.destroyed ∧
      ∀ event, state.permitted event → ∃ next, state.execute event = .ok next := by
  have holds : ∃ elements, state.Holds elements ∧
    Element.values elements = QueueEvent.deques history := by
    refine run.induct (fun history state => ∃ elements, state.Holds elements ∧
      Element.values elements = QueueEvent.deques history) ⟨_, .initial, rfl⟩ ?_
    rintro history state event next _ ⟨elements, holds, same⟩ permitted executed
    obtain ⟨after, now, ran, kept, changed⟩ := holds.execute positive small permitted
    cases ran.symm.trans executed
    refine ⟨now, kept, ?_⟩
    rw [changed, same, QueueEvent.deques, QueueEvent.deques, List.map_append, List.foldl_append]
    rfl
  obtain ⟨elements, holds, same⟩ := holds
  refine ⟨elements, fun id => ?_, fun id => congrFun same id, holds.custody,
    fun event permitted => ?_⟩
  · cases scope : state.queues id with
    | none =>
      rw [holds.outside scope]
      exact .none
    | some queue =>
      obtain ⟨list, here⟩ := holds.found (Option.isSome_of_eq_some scope)
      have represents := holds.represented here
      rw [CircularQueues.queue, scope] at represents
      rw [here]
      exact .some (represents.isDeque small)
  · obtain ⟨after, _, ran, _⟩ := holds.execute positive small permitted
    exact ⟨after, ran⟩

theorem circular_queues_refine_three :
    ∃ (state : CircularQueues Nat 3) (history : List (CircularQueues Nat 3 × QueueEvent Nat)),
      CircularQueues.machine.Run .initial history state ∧
      history.map Prod.snd = [.construct 0, .enqueue 0 5,
        .enqueueFront 0 4, .dequeue 0, .enqueue 0 6, .enqueue 0 7, .moveConstruct 1 0] ∧
      ∃ elements : Contents (Element Nat),
        (∀ id, Option.Rel CircularQueue.IsDeque (state.queues id) (elements id)) ∧
        (∀ id, (elements id).map (List.map Element.value) = QueueEvent.deques history id) ∧
        Custody (numbers elements) state.next state.destroyed ∧
        ∀ event, state.permitted event → ∃ next, state.execute event = .ok next := by
  have finished : (CircularQueues.machine.after (.initial : CircularQueues Nat 3) [.construct 0, .enqueue 0 5,
      .enqueueFront 0 4, .dequeue 0, .enqueue 0 6, .enqueue 0 7, .moveConstruct 1 0]).isSome := by
        decide
  obtain ⟨state, played⟩ := Option.isSome_iff_exists.mp finished
  obtain ⟨history, run, events⟩ := Machine.run_after played
  exact ⟨state, history, run, events, circular_queues_refine (by decide) (by decide) run⟩

end PicoOs.Std
