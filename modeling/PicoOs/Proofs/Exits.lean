import PicoOs.Proofs.Callers

/-! What becomes of a process that exits: the reference that its worker captured is
never dropped. -/

namespace PicoOs.Kernel
open Library

def ProgramPoint.servesExit (caller : ThreadId) : ProgramPoint → Bool
  | workerReturn thread _ false | workerStored thread false | returned (some thread)
  | dying (some thread)
  | halted (some thread) => thread = caller
  | _ => false

theorem ProgramPoint.servesExit_holds {point : ProgramPoint} {caller : ThreadId}
    (serves : point.servesExit caller = true) :
    (.parked, caller) ∈ point.holds ∧ point.references = [caller] ∧ point.setUp = true ∧
    point.allocates = false ∧
      point.mayHaveChild = false := by
  cases point with
  | workerReturn thread value shouldReturn =>
    cases shouldReturn with
    | false =>
      obtain rfl : thread = caller := of_decide_eq_true serves
      exact ⟨List.mem_singleton_self _, rfl, rfl, rfl, rfl⟩
    | true => cases serves
  | workerStored thread shouldReturn =>
    cases shouldReturn with
    | false =>
      obtain rfl : thread = caller := of_decide_eq_true serves
      exact ⟨List.mem_singleton_self _, rfl, rfl, rfl, rfl⟩
    | true => cases serves
  | returned captured | dying captured | halted captured =>
    cases captured with
    | none => cases serves
    | some thread =>
      obtain rfl : thread = caller := of_decide_eq_true serves
      exact ⟨List.mem_singleton_self _, rfl, rfl, rfl, rfl⟩
  | _ => cases serves

private theorem State.serving_lands {state : State} {worker caller : ThreadId} {step : ThreadStep}
    (may : (state.threads worker).may step)
    (serves : (state.threads worker).point.servesExit caller = true) :
    (state.lands worker step).servesExit caller = true := by
  have elsewhere {point : ProgramPoint} (reached : (state.threads worker).point = point)
      (other : point.servesExit caller = false) : False := by
    rw [reached, other] at serves
    cases serves
  have at_point {point : ProgramPoint} (reached : (state.threads worker).point = point) :
    point.servesExit caller = true :=
    reached ▸ serves
  cases step with
  | compute | lock | lockReturn | unlock | construct | loadExecutable | svc
  | proceed => exact serves
  | enable | pollDangling | clearDangling | constructHandler | setupHandler | checkWaiting
  | takeWaiting | readContext
  | unmaskCaller | requeueCaller | handOver => exact (elsewhere may.2.2 rfl).elim
  | finishCall => exact (elsewhere may.2.2.1 rfl).elim
  | finishDestroy =>
    have destroying : (state.threads worker).point.isDestroying = true := may.2.2
    cases point : (state.threads worker).point with
    | defaultDestroying => exact (elsewhere point rfl).elim
    | _ =>
      rw [point] at destroying
      cases destroying
  | finish =>
    have finishes : (state.threads worker).point.finishes = true := may.2.2
    cases point : (state.threads worker).point with
    | startupDone | handlerDone => exact (elsewhere point rfl).elim
    | _ =>
      rw [point] at finishes
      cases finishes
  | setup =>
    have creates : (state.threads worker).point.creates = true := may.2.2.1
    cases point : (state.threads worker).point with
    | startupReady | handlerContext | workerCall => exact (elsewhere point rfl).elim
    | _ =>
      rw [point] at creates
      cases creates
  | enqueueChild =>
    dsimp only [State.lands]
    cases point : (state.threads worker).point with
    | startupReady | handlerSpawned => exact (elsewhere point rfl).elim
    | _ => exact at_point point
  | trigger =>
    have triggers : (state.threads worker).point.triggers = true := may.2.2
    dsimp only [State.lands]
    cases point : (state.threads worker).point with
    | dummyEnabled | fallbackLoop => exact (elsewhere point rfl).elim
    | dying captured =>
      have dies := at_point point
      cases captured with
      | none => cases dies
      | some thread => exact dies
    | _ =>
      rw [point] at triggers
      cases triggers
  | storeReturn thread value shouldReturn =>
    have returns := at_point may.2.2
    cases shouldReturn with
    | false => exact returns
    | true => cases returns
  | finishExit thread =>
    have point : (state.threads worker).point = .workerStored thread false := may.2.2
    exact (at_point point : ProgramPoint.servesExit caller (.workerStored thread false) = true)
  | mask captured =>
    have point : (state.threads worker).point = .returned captured := may.2.2
    have ended := at_point point
    cases captured with
    | none => cases ended
    | some thread => exact ended

private theorem Valid.leaked_kept {state after : State} (valid : Valid state) {event : SystemEvent}
    (permitted : state.permitted event)
    (executed : state.execute event = .ok after) {caller : ThreadId}
    (leaked : caller ∈ state.leaked) :
    caller ∈ after.leaked := by
  rw [valid.leaked_step permitted executed]
  unfold State.closures
  split
  · exact List.mem_append_left _ leaked
  · exact leaked

/-- The caller's reference sits in the worker's frames, or in a closure that was never
destructed. -/
def State.exiting (state : State) (worker caller : ThreadId) : Prop :=
  (state.threads worker).point.servesExit caller = true ∨ caller ∈ state.leaked

private theorem Valid.exiting_step {state after : State} (valid : Valid state)
    {worker caller : ThreadId} {event : SystemEvent}
    (permitted : state.permitted event) (executed : state.execute event = .ok after)
    (exiting : state.exiting worker caller) : after.exiting worker caller := by
  obtain serves | leaked := exiting
  · have ⟨holds, references, setUp, allocates, childless⟩ := ProgramPoint.servesExit_holds serves
    have same (kept : (after.threads worker).point = (state.threads worker).point) :
      after.exiting worker caller :=
      Or.inl (kept ▸ serves)
    cases event with
    | tick =>
      obtain rfl := Except.ok.inj executed
      refine same ?_
      unfold State.isrSystick
      split <;> rfl
    | pendSV => exact same ((Switches.schedulerNext.value executed).point worker)
    | thread thread step =>
      by_cases call : step = .svc
      · subst call
        exact same ((Switches.syscall.value executed).point worker)
      · by_cases own : worker = thread
        · subst own
          exact Or.inl (valid.step_lands permitted executed call ▸ State.serving_lands permitted.2.2 serves)
        · obtain kept | destroyed | ⟨value, shouldReturn, stored⟩ :=
            valid.step_other permitted executed call own setUp
          · exact same kept.point
          · subst destroyed
            obtain rfl := State.clearDangling_yields.value executed
            have child := valid.childless childless
            refine Or.inr (List.mem_append_right _ ?_)
            rw [Thread.references, references, child]
            exact List.mem_singleton_self _
          · subst stored
            obtain ⟨context, -, rfl⟩ := State.storeReturn_yields.value executed
            refine same ?_
            rw [State.setPoint, State.modify_of_ne _ own, State.modify_self]
  · exact Or.inr (valid.leaked_kept permitted executed leaked)

theorem Valid.exiting_parked {state : State} (valid : Valid state) {worker caller : ThreadId}
    (exiting : state.exiting worker caller) : 1 ≤ (state.view caller).tally .parked := by
  obtain serves | leaked := exiting
  · have ⟨holds, _, setUp, _, _⟩ := ProgramPoint.servesExit_holds serves
    have born := State.born_of_point valid.sound (ProgramPoint.setUp_excludes setUp).2.2
    exact State.counted born (List.mem_append_left _ holds)
  · exact (List.one_le_count_iff.mpr leaked).trans
      ((Nat.le_add_left ..).trans (Nat.le_add_right ..))

private theorem Valid.parked_ranges {state after : State} (valid : Valid state) {caller : ThreadId}
    {event : SystemEvent}
    (permitted : state.permitted event) (executed : state.execute event = .ok after)
    (parked : 1 ≤ (state.view caller).tally .parked) :
    (after.threads caller).ownedPageRanges = (state.threads caller).ownedPageRanges := by
  obtain ⟨user, _⟩ := (valid.sound caller).parked parked
  have user : (state.threads caller).point = .userMode := user
  have ranges {value : Thread} (same : value.frame = (state.threads caller).frame) :
      value.ownedPageRanges = (state.threads caller).ownedPageRanges := congrArg (·.2.2.2.2) same
  cases event with
  | tick =>
    obtain rfl := Except.ok.inj executed
    unfold State.isrSystick
    split <;> rfl
  | pendSV => exact ranges ((Switches.schedulerNext.value executed).frames caller)
  | thread thread step =>
    by_cases call : step = .svc
    · subst call
      exact ranges ((Switches.syscall.value executed).frames caller)
    · have running := permitted.2.1
      have own : caller ≠ thread := by
        intro same
        have single := (valid.sound caller).single fun role => by
          have fits := (valid.sound caller).fits
          rw [State.view_thread, user, role] at fits
          cases fits
        have runs : (state.view caller).running = 1 := by simp [State.view, running, same]
        simp only [View.places, View.ready] at single
        omega
      obtain kept | destroyed | ⟨value, shouldReturn, stored⟩ :=
        valid.step_other permitted executed call own (by rw [user]; rfl)
      · exact ranges kept.frame
      · subst destroyed
        have point : (state.threads thread).point = .defaultRelease caller := permitted.2.2.2.2
        have ended := State.released_ends valid.sound running point
        rw [user] at ended
        cases ended
      · subst stored
        obtain ⟨context, -, rfl⟩ := State.storeReturn_yields.value executed
        rw [State.setPoint, State.modify_of_ne _ own, State.modify_self]

def State.exits (state : State) (caller : ThreadId) : Prop :=
  ∃ context, (state.threads caller).stashedContext = some context ∧ context.r0 = scExit

private theorem exiting_run {stack : ThreadId → PageRange}
    {context : ThreadId → FullRegisterContext} {state : State}
    {history : List (State × SystemEvent)}
    (run : State.machine.Run (State.boot stack context) history state)
    {worker caller : ThreadId} {value : UInt32} :
    ∀ entry ∈ history, entry.2 = .thread worker (.finishCall caller value) → entry.1.exits caller →
      state.exiting worker caller ∧
      (state.threads caller).ownedPageRanges = (entry.1.threads caller).ownedPageRanges := by
  induction run with
  | start => exact fun entry member => absurd member List.not_mem_nil
  | @step history state event after run permitted executed ih =>
    have valid := (reachable_valid ⟨history, run⟩).1
    intro entry member serves exits
    obtain earlier | last := List.mem_append.mp member
    · obtain ⟨exiting, ranges⟩ := ih entry earlier serves exits
      exact ⟨valid.exiting_step permitted executed exiting,
        (valid.parked_ranges permitted executed (valid.exiting_parked exiting)).trans ranges⟩
    · obtain rfl := List.mem_singleton.mp last
      obtain rfl : event = .thread worker (.finishCall caller value) := serves
      obtain ⟨saved, stashed, number⟩ := exits
      obtain ⟨found, same, rfl⟩ := State.finishCall_yields.value executed
      obtain rfl : saved = found := Option.some.inj (stashed.symm.trans same)
      have moved : (state.setPoint worker (.workerReturn caller value (saved.r0 ≠ scExit))).threads worker =
          { state.threads worker with point := .workerReturn caller value (saved.r0 ≠ scExit) } :=
            State.modify_self _
      refine ⟨Or.inl ?_, update_field Thread.ownedPageRanges rfl⟩
      rw [moved, number]
      exact decide_eq_true rfl

/-- Every thread that was set up owns its stack. -/
def State.Stacked (state : State) : Prop :=
  ∀ thread, (state.threads thread).point.setUp = true → (state.threads thread).ownedPageRanges ≠ []

namespace State.Stacked
variable {state after : State} {thread : ThreadId}

private theorem update (stacked : state.Stacked) {value : Thread}
    (threads : after.threads = Function.update state.threads thread value)
    (owns : value.point.setUp = true → value.ownedPageRanges ≠ []) : after.Stacked := by
  intro other setUp
  rw [threads] at setUp ⊢
  by_cases same : other = thread
  · subst same
    rw [Function.update_self] at setUp ⊢
    exact owns setUp
  · rw [Function.update_of_ne same] at setUp ⊢
    exact stacked other setUp

private theorem own (stacked : state.Stacked) {value : Thread}
    (setUp : (state.threads thread).point.setUp = true)
    (threads : after.threads = Function.update state.threads thread value)
    (ranges : value.ownedPageRanges = (state.threads thread).ownedPageRanges) : after.Stacked :=
  stacked.update threads fun _ => ranges ▸ stacked thread setUp

private theorem same (stacked : state.Stacked)
    (frames : ∀ thread, (after.threads thread).frame = (state.threads thread).frame) :
    after.Stacked := by
  intro other setUp
  have point : (after.threads other).point = (state.threads other).point :=
    congrArg (·.1) (frames other)
  have ranges : (after.threads other).ownedPageRanges = (state.threads other).ownedPageRanges :=
    congrArg (·.2.2.2.2) (frames other)
  rw [ranges]
  exact stacked other (point ▸ setUp)

end State.Stacked

private theorem Valid.stacked_step {state after : State} (valid : Valid state)
    (stacked : state.Stacked) {event : SystemEvent}
    (permitted : state.permitted event) (executed : state.execute event = .ok after) :
    after.Stacked := by
  cases event with
  | tick =>
    obtain rfl := Except.ok.inj executed
    unfold State.isrSystick
    split <;> exact stacked
  | pendSV => exact stacked.same (Switches.schedulerNext.value executed).frames
  | thread thread step =>
    have setUp : (state.threads thread).point.setUp = true :=
      (valid.sound thread).running (by simp [State.view, permitted.2.1])
    by_cases calls : step = .svc
    · subst calls
      exact stacked.same (Switches.syscall.value executed).frames
    by_cases unlocks : ∃ mutex, step = .unlock mutex
    · obtain ⟨mutex, rfl⟩ := unlocks
      have dropped : (state.dropped thread mutex).Stacked := stacked.own setUp rfl rfl
      have released : ((state.dropped thread mutex).released mutex).Stacked :=
        dropped.same fun _ => State.released_same.frame
      obtain ⟨-, rfl⟩ | ⟨-, -, rfl⟩ | ⟨next, rest, -, -, -, rfl⟩ :=
        (State.unlock_yields valid.sound mutex permitted.2.2.2).value executed
      · exact dropped
      · exact released
      · exact released.same fun _ => State.inherited_same.frame
    have effect := valid.step_effect permitted executed calls (not_exists.mp unlocks)
    intro other alive
    by_cases mine : other = thread
    · subst mine
      obtain ⟨more, grown⟩ := State.assetsAfter_own effect.target_ne
      have owned : (after.threads other).ownedPageRanges =
        (state.threads other).ownedPageRanges ++ more :=
        (congrArg Prod.fst effect.alters.assets).trans grown
      rw [owned]
      exact List.append_ne_nil_of_left_ne_nil (stacked other setUp) more
    · rcases effect.others mine with ⟨-, same⟩ | touches
      · rw [same] at alive ⊢
        exact stacked other alive
      · generalize after.threads other = value at touches alive
        cases touches with
        | destroys | createsHandler | creates => cases alive
        | setsUpHandler | setsUp => exact List.concat_ne_nil _ _
        | stores | unmasks => exact stacked other alive

private theorem reachable_stacked {stack : ThreadId → PageRange}
    {context : ThreadId → FullRegisterContext} {state : State}
    (reachable : State.machine.Reachable (State.boot stack context) state) :
    Valid state ∧ state.Stacked := by
  have initial : (State.boot stack context).Stacked := by
    intro thread setUp
    obtain rfl | rfl | rfl | rfl | large := boot_thread thread
    · exact List.cons_ne_nil _ _
    · exact List.cons_ne_nil _ _
    · exact List.cons_ne_nil _ _
    · exact List.cons_ne_nil _ _
    · rw [boot_unborn large] at setUp
      cases setUp
  have step : ∀ {state event next}, Valid state ∧ state.Stacked →
    State.machine.permitted state event →
      State.machine.execute state event = .ok next → Valid next ∧ next.Stacked :=
    fun ⟨valid, stacked⟩ permitted executed =>
      ⟨(valid.execute permitted).value executed, valid.stacked_step stacked permitted executed⟩
  exact reachable.invariant (fun state => Valid state ∧ state.Stacked) ⟨boot_valid, initial⟩ step

/-- However the worker of an exit call came to be destroyed, the exited thread outlives it, with all
of its pages. -/
theorem exited_kept {stack : ThreadId → PageRange} {context : ThreadId → FullRegisterContext}
    {state before : State}
    {history : List (State × SystemEvent)}
    (run : State.machine.Run (State.boot stack context) history state)
    {worker caller : ThreadId} {value : UInt32}
    (served : (before, .thread worker (.finishCall caller value)) ∈ history)
    (exits : before.exits caller) (ended : (state.threads worker).point = .destroyed) :
    caller ∈ state.slots ∧ 1 ≤ (state.threads caller).refcount ∧
    (state.threads caller).point ≠ .destroyed ∧
      (state.threads caller).ownedPageRanges = (before.threads caller).ownedPageRanges ∧
      (state.threads caller).ownedPageRanges ≠ [] := by
  have ⟨exiting, ranges⟩ := exiting_run run _ served rfl exits
  have ⟨valid, stacked⟩ := reachable_stacked ⟨history, run⟩
  have parked := valid.exiting_parked exiting
  have ⟨user, _⟩ := (valid.sound caller).parked parked
  have user : (state.threads caller).point = .userMode := user
  have leaked : caller ∈ state.leaked := exiting.resolve_left (by rw [ended]; nofun)
  refine ⟨List.mem_append_right _ leaked, ?_,
    by rw [user]; nofun, ranges, stacked caller (by rw [user]; rfl)⟩
  have exact := (valid.sound caller).exact
  simp only [State.view_thread, View.places] at exact
  omega

def SystemEvent.exitCall : List SystemEvent :=
  startup ++ destroys 3 ++ [.thread 5 .handOver,
    .thread 5 (.compute { entryContext 0 0 with r0 := scExit }), .thread 5 .svc] ++
    serves [5] 6 ++ [.thread 4 .checkWaiting, .pendSV]

def SystemEvent.exitServed : List SystemEvent :=
  [.thread 6 (.storeReturn 5 0 false), .thread 6 (.finishExit 5), .thread 6 (.mask (some 5)),
    .thread 6 .trigger, .pendSV] ++
    destroys 6 ++ [.thread 0 .pollDangling]

theorem exit_run : ∃ history before state, State.machine.Run .bootPlain history state ∧
    (before, SystemEvent.thread 6 (.finishCall 5 0)) ∈ history ∧ before.exits 5 ∧
      (state.threads 6).point = .destroyed ∧ (state.threads 5).refcount = 1 := by
  have played : (State.machine.after .bootPlain SystemEvent.exitCall).map (fun before =>
      ((before.threads 5).stashedContext.map FullRegisterContext.r0,
        (State.machine.after before (.thread 6 (.finishCall 5 0) :: SystemEvent.exitServed)).map fun state =>
          ((state.threads 6).point, (state.threads 5).refcount))) = some (some scExit,
            some (.destroyed, 1)) := by
    decide +kernel
  obtain ⟨before, called, shape⟩ := Option.map_eq_some_iff.mp played
  obtain ⟨number, rest⟩ := Prod.mk.inj shape
  obtain ⟨saved, stashed, exits⟩ := Option.map_eq_some_iff.mp number
  obtain ⟨state, served, outcome⟩ := Option.map_eq_some_iff.mp rest
  obtain ⟨ended, count⟩ := Prod.mk.inj outcome
  obtain ⟨next, permitted, executed, served⟩ := Machine.after_cons served
  obtain ⟨history, run⟩ := Machine.reachable_after called
  obtain ⟨more, extended⟩ := (run.step permitted executed).extend served
  refine ⟨_, before, state, extended, ?_, ⟨saved, stashed, exits⟩, ended, count⟩
  exact List.mem_append_left _ (List.mem_append_right _ (List.mem_singleton_self _))

theorem exited_kept_once : ∃ history before state, State.machine.Run .bootPlain history state ∧
    (before, SystemEvent.thread 6 (.finishCall 5 0)) ∈ history ∧
    (state.threads 6).point = .destroyed ∧
      5 ∈ state.slots ∧ (state.threads 5).ownedPageRanges = (before.threads 5).ownedPageRanges := by
  obtain ⟨history, before, state, run, served, exits, ended, _⟩ := exit_run
  have ⟨held, _, _, ranges, _⟩ := exited_kept run served exits ended
  exact ⟨history, before, state, run, served, ended, held, ranges⟩

/-- The worker of the exit call is gone, but nobody ever drops the reference in its closure. -/
theorem exit_not_reclaimed : ¬∀ history before state worker caller value,
    State.machine.Run .bootPlain history state →
    (before, SystemEvent.thread worker (.finishCall caller value)) ∈ history → before.exits caller →
      (state.threads worker).point = .destroyed →
        caller ∉ state.slots ∧ (state.threads caller).refcount = 0 ∧
        (state.threads caller).point = .destroyed := by
  intro reclaimed
  obtain ⟨history, before, state, run, served, exits, ended, count⟩ := exit_run
  have ⟨_, freed, _⟩ := reclaimed history before state 6 5 0 run served exits ended
  rw [count] at freed
  cases freed

end PicoOs.Kernel
