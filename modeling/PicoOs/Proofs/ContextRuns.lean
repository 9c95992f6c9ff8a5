import PicoOs.Library.Outcome
import PicoOs.Proofs.ContextSwitches

/-! Threads do not see the switches: each of them goes on with the registers that it had. -/

namespace PicoOs.Kernel
open Library Thumb FullRegisterContext

def resumed (memory : Memory) (address : Nat) : Registers :=
  ⟨resumedContext memory address, stackPointer memory address⟩

/-- The contexts of suspended threads are apart. -/
structure SavedContexts (memory : Memory) (stashed : ThreadId → Option Nat) : Prop where
  bounds : ∀ {thread address}, stashed thread = some address →
    0 < address ∧ address % 8 = 0 ∧ stackPointer memory address < 2 ^ 32
  apart : ∀ {first second start stop}, stashed first = some start → stashed second = some stop →
    first ≠ second →
    stackPointer memory start ≤ stop ∨ stackPointer memory stop ≤ start

namespace SwitchState

structure Sound (core : SwitchState) : Prop where
  running : core.stashed core.active = none
  interruptible : core.Interruptible core.processor
  contexts : SavedContexts core.processor.memory core.stashed

end SwitchState

section
variable {memory after : Memory} {address start stop : Nat} {stashed : ThreadId → Option Nat}
  {thread : ThreadId}

theorem stackPointer_above (memory : Memory) (address : Nat) :
    address + size ≤ stackPointer memory address := Nat.le_add_right _ _

theorem resumed_agree (agree : memory.Agree after address (stackPointer memory address)) :
    resumed after address = resumed memory address ∧
    stackPointer after address = stackPointer memory address := by
  have same := load_agree (agree.mono (Nat.le_refl _) (stackPointer_above memory address))
  have pointer : stackPointer after address = stackPointer memory address := by
    rw [stackPointer, same, stackPointer]
  exact ⟨by rw [resumed, resumedContext, same, pointer, resumed, resumedContext], pointer⟩

theorem SavedContexts.change (contexts : SavedContexts memory stashed)
    (same : ∀ {thread address}, stashed thread = some address →
      stackPointer after address = stackPointer memory address) :
    SavedContexts after stashed := by
  constructor
  · intro thread address held
    rw [same held]
    exact contexts.bounds held
  · intro first second start stop one other different
    rw [same one, same other]
    exact contexts.apart one other different

theorem SavedContexts.insert (contexts : SavedContexts memory stashed)
    (bounds : 0 < address ∧ address % 8 = 0 ∧ stackPointer memory address < 2 ^ 32)
    (free : ∀ other place, stashed other = some place → stackPointer memory address ≤ place ∨
      stackPointer memory place ≤ address) :
    SavedContexts memory (Function.update stashed thread (some address)) := by
  constructor
  · intro other place held
    by_cases same : other = thread
    · rw [same, Function.update_self, Option.some.injEq] at held
      exact held ▸ bounds
    · rw [Function.update_of_ne same] at held
      exact contexts.bounds held
  · intro first second start stop one other different
    by_cases left : first = thread
    · have right : second ≠ thread := fun same => different (left.trans same.symm)
      rw [left, Function.update_self, Option.some.injEq] at one
      rw [Function.update_of_ne right] at other
      exact one ▸ free second stop other
    · rw [Function.update_of_ne left] at one
      by_cases right : second = thread
      · rw [right, Function.update_self, Option.some.injEq] at other
        exact other ▸ (free first start one).symm
      · rw [Function.update_of_ne right] at other
        exact contexts.apart one other different

theorem SavedContexts.remove (contexts : SavedContexts memory stashed) (thread : ThreadId) :
    SavedContexts memory (Function.update stashed thread none) := by
  have earlier {other : ThreadId} {place : Nat} (held : Function.update stashed thread none other = some place) : stashed other = some place := by
    by_cases same : other = thread
    · rw [same, Function.update_self] at held
      cases held
    · rwa [Function.update_of_ne same] at held
  exact ⟨fun held => contexts.bounds (earlier held),
    fun one other => contexts.apart (earlier one) (earlier other)⟩

end

section
variable {core : SwitchState} {processor : Processor}

private theorem resumed_saved {memory : Memory} (aligned : processor.address .sp % 4 = 0)
    (room : 68 < processor.address .sp)
    (clear : padded processor.xpsr = 0)
    (words : Words memory (SwitchState.contextAddress processor) (savedContext processor).words) :
    resumed memory (SwitchState.contextAddress processor) =
      ⟨.current processor, processor.address .sp⟩ := by
  obtain ⟨low, -, -, high⟩ := frameAddress_bounds aligned room
  have loaded := load_of_words words
  have padding : processor.address .sp % 8 / 4 < 2 := by omega
  have status : withPadding (savedContext processor).xpsr 0 = processor.xpsr :=
    (withPadding_withPadding processor.xpsr padding).trans (withPadding_zero clear)
  have pointer : stackPointer memory (SwitchState.contextAddress processor) =
    processor.address .sp := by
    have saved : padded (savedContext processor).xpsr = processor.address .sp % 8 / 4 :=
      padded_withPadding _ padding
    rw [stackPointer, loaded, saved, SwitchState.contextAddress, size]
    omega
  rw [resumed, resumedContext, loaded, pointer, status]
  rfl

namespace SwitchState

theorem view_registers (core : SwitchState) (thread : ThreadId) :
    core.view.registers thread = if thread = core.active then some ⟨.current core.processor, core.processor.address .sp⟩
      else (core.stashed thread).map (resumed core.processor.memory) := rfl

private theorem Sound.pause (sound : core.Sound) {memory : Memory}
    (words : Words memory (contextAddress core.processor) (savedContext core.processor).words)
    (agree : ∀ start stop, stop ≤ contextAddress core.processor ∨
      core.processor.address .sp ≤ start →
      core.processor.memory.Agree memory start stop) :
    SavedContexts memory (Function.update core.stashed core.active (some (contextAddress core.processor))) ∧
    ∀ thread, (Function.update core.stashed core.active (some (contextAddress core.processor)) thread).map (resumed memory) =
      core.view.registers thread := by
  obtain ⟨aligned, room, clear, free⟩ := sound.interruptible
  obtain ⟨low, even, bound, high⟩ := frameAddress_bounds aligned room
  have saved := resumed_saved aligned room clear words
  have pointer : stackPointer memory (contextAddress core.processor) = core.processor.address .sp :=
    congrArg Registers.sp saved
  have kept : ∀ thread address, core.stashed thread = some address →
      core.processor.memory.Agree memory address (stackPointer core.processor.memory address) :=
    fun thread address held => agree _ _ (free thread address held).symm
  refine ⟨(sound.contexts.change fun held => (resumed_agree (kept _ _ held)).2).insert ?_ ?_, ?_⟩
  · have top : core.processor.address .sp < 2 ^ 32 := (core.processor.registers .sp).toNat_lt
    rw [pointer, contextAddress]
    omega
  · intro other place held
    rw [pointer, (resumed_agree (kept other place held)).2]
    exact free other place held
  · intro thread
    rw [view_registers]
    by_cases same : thread = core.active
    · rw [same, Function.update_self, if_pos rfl, Option.map_some, saved]
    · rw [Function.update_of_ne same, if_neg same]
      cases held : core.stashed thread with
      | none => rfl
      | some address =>
          rw [Option.map_some, Option.map_some, (resumed_agree (kept thread address held)).1]

private theorem Sound.resume {memory : Memory} {stashed : ThreadId → Option Nat}
    (contexts : SavedContexts memory stashed) {next : ThreadId} {address : Nat}
    (held : stashed next = some address) (same : processor.memory = memory)
    (registers : (⟨.current processor, processor.address .sp⟩ : Registers) =
      resumed memory address) :
    Sound ⟨processor, next, Function.update stashed next none⟩ ∧
    ∀ thread, (view ⟨processor, next, Function.update stashed next none⟩).registers thread =
      (stashed thread).map (resumed memory) := by
  obtain ⟨positive, even, bound⟩ := contexts.bounds held
  have whole : processor.address .sp = stackPointer memory address :=
    congrArg Registers.sp registers
  have pointer : processor.address .sp = address + 64 + 4 * padded (load memory address).xpsr :=
    whole
  have padding : padded (load memory address).xpsr < 2 := Nat.mod_lt _ (by decide)
  have status : processor.xpsr = withPadding (load memory address).xpsr 0 :=
    congrArg (fun registers : Registers => registers.context.xpsr) registers
  have place : contextAddress processor = address := by
    rw [contextAddress, Processor.frameAddress]
    omega
  have aligned : processor.address .sp % 4 = 0 := by omega
  have room : 68 < processor.address .sp := by omega
  have clear : padded processor.xpsr = 0 := by rw [status, padded_withPadding _ (by decide)]
  have free : ∀ other start, Function.update stashed next none other = some start →
      processor.address .sp ≤ start ∨ stackPointer processor.memory start ≤
        contextAddress processor := by
    intro other start found
    by_cases self : other = next
    · rw [self, Function.update_self] at found
      cases found
    · rw [Function.update_of_ne self] at found
      rw [same, place, whole]
      exact contexts.apart held found (Ne.symm self)
  refine ⟨⟨Function.update_self .., ⟨aligned, room, clear, free⟩, ?_⟩, ?_⟩
  · rw [same]
    exact contexts.remove next
  · intro thread
    rw [view_registers]
    by_cases self : thread = next
    · rw [if_pos self, self, held, registers]
      rfl
    · rw [if_neg self, same]
      exact congrArg (Option.map (resumed memory)) (Function.update_of_ne self ..)

/-- A switch changes which thread is active and nothing else that threads can see. -/
theorem Sound.interrupt (sound : core.Sound) {number : Nat} {next : ThreadId}
    (exists_next : next = core.active ∨ (core.stashed next).isSome)
    (links : Links) (scratch : Scratch) :
    ∃ after, core.interrupt number next links scratch = .ok after ∧ after.Sound ∧
    after.view = { core.view with active := next } := by
  obtain ⟨aligned, room, clear, free⟩ := sound.interruptible
  obtain ⟨pushed, ran, address, words, agree⟩ :=
    isrBegin_saves aligned room number links.push links.call
  obtain ⟨contexts, registers⟩ := sound.pause words agree
  obtain ⟨context, held⟩ : ∃ context, Function.update core.stashed core.active
    (some (contextAddress core.processor)) next = some context := by
    by_cases same : next = core.active
    · exact ⟨_, by rw [same, Function.update_self]⟩
    · rw [Function.update_of_ne same]
      exact Option.isSome_iff_exists.mp (exists_next.resolve_left same)
  obtain ⟨positive, even, bound⟩ := contexts.bounds held
  have above := stackPointer_above pushed.memory context
  have called : (scratch.call context pushed).address .r0 = context := by
    have result : (scratch.call context pushed).registers .r0 = .ofNat context := rfl
    rw [Processor.address, result, UInt32.toNat_ofNat_of_lt' (by rw [UInt32.size]; omega)]
  have fits : context + 68 < 2 ^ 32 := by
    have pointer : stackPointer pushed.memory context = context + 64 + 4 *
      padded (load pushed.memory context).xpsr := rfl
    omega
  obtain ⟨popped, rest, memory, pointer, current⟩ :=
    isrEnd_restores called (by omega) fits links.pop
  obtain ⟨resumedSound, view⟩ := Sound.resume contexts held memory (by rw [current, pointer]; rfl)
  have chosen : (Function.update core.stashed core.active (some (pushed.address .r0)) next).getD
    0 = context := by
    rw [address, held]
    rfl
  have popping : run (isrEnd links.pop)
      (scratch.call ((Function.update core.stashed core.active (some (pushed.address .r0)) next).getD 0) pushed) = .ok popped := by
    rw [chosen, rest]
  have done : core.interrupt number next links scratch = .ok ⟨returnFromException popped, next,
      Function.update (Function.update core.stashed core.active (some (contextAddress core.processor))) next none⟩ :=
    bind_ok.mpr ⟨pushed, ran, bind_ok.mpr ⟨popped, popping, by rw [address]⟩⟩
  refine ⟨_, done, resumedSound, ?_⟩
  exact congrArg (Threads.mk next) (funext fun thread => (view thread).trans (registers thread))

theorem Sound.change (sound : core.Sound) (interruptible : core.Interruptible processor)
    (same : ∀ {thread address}, core.stashed thread = some address →
      stackPointer processor.memory address = stackPointer core.processor.memory address) :
      Sound { core with processor } := by
  refine ⟨sound.running, ⟨interruptible.aligned, interruptible.room, interruptible.clear, ?_⟩,
    sound.contexts.change same⟩
  intro thread address held
  have free := interruptible.free thread address held
  rwa [← same held] at free

private theorem Sound.compute (sound : core.Sound) (interruptible : core.Interruptible processor)
    (agree : ∀ thread address, core.stashed thread = some address →
      core.processor.memory.Agree processor.memory address
        (stackPointer core.processor.memory address)) :
    Sound { core with processor } ∧
    view { core with processor } = core.view.set core.active (some ⟨.current processor,
      processor.address .sp⟩) := by
  refine ⟨sound.change interruptible fun held => (resumed_agree (agree _ _ held)).2, ?_⟩
  refine congrArg (Threads.mk core.active) (funext fun thread => ?_)
  by_cases same : thread = core.active
  · rw [same, Function.update_self, if_pos rfl]
  · rw [Function.update_of_ne same, if_neg same, view_registers, if_neg same]
    cases held : core.stashed thread with
    | none => rfl
    | some address => exact congrArg some (resumed_agree (agree thread address held)).1

private theorem view_store (core : SwitchState) (memory : Memory) (thread : ThreadId) :
    (core.store memory).view.registers thread = if thread = core.active then some ⟨.current core.processor, core.processor.address .sp⟩
      else (core.stashed thread).map (resumed memory) := rfl

private theorem words_store_r0 (memory : Memory) (address : Nat) (value : UInt32) :
    Words (memory.store (address + r0Offset) value.toNat) address
      { load memory address with r0 := value }.words := by
  have words := words_load memory address
  have parts : (load memory address).words =
      (load memory address).words.take 8 ++ ([(load memory address).r0] ++ (load memory address).words.drop 9) := rfl
  have changed : { load memory address with r0 := value }.words =
      (load memory address).words.take 8 ++ ([value] ++ (load memory address).words.drop 9) := rfl
  rw [parts, words_append, words_append] at words
  obtain ⟨below, -, above⟩ := words
  have eight : ((load memory address).words.take 8).length = 8 := rfl
  have seven : ((load memory address).words.drop 9).length = 7 := rfl
  rw [changed, words_append, words_append]
  rw [eight, List.length_singleton] at above
  rw [eight, List.length_singleton, r0Offset]
  refine ⟨below.agree (memory.store_agree (.inl (by omega))), ⟨?_, trivial⟩, above.agree (memory.store_agree (.inr (by omega)))⟩
  rw [Memory.load_store_same, Nat.mod_eq_of_lt value.toNat_lt]

private theorem Sound.storeReturn (sound : core.Sound) {caller : ThreadId} {address : Nat}
    (held : core.stashed caller = some address) (value : UInt32) :
    Sound (core.store (core.processor.memory.store (address + r0Offset) value.toNat)) ∧
    view (core.store (core.processor.memory.store (address + r0Offset) value.toNat)) =
      core.view.set caller ((core.view.registers caller).map fun registers => { registers with context.r0 := value }) := by
  have idle : caller ≠ core.active := by
    intro same
    rw [same, sound.running] at held
    cases held
  have changed := load_of_words (words_store_r0 core.processor.memory address value)
  have pointer : stackPointer (core.processor.memory.store (address + r0Offset) value.toNat)
    address = stackPointer core.processor.memory address := by
    rw [stackPointer, changed, stackPointer]
  have others {thread : ThreadId} {place : Nat} (found : core.stashed thread = some place)
    (different : thread ≠ caller) :
      core.processor.memory.Agree (core.processor.memory.store (address + r0Offset) value.toNat)
        place (stackPointer core.processor.memory place) := by
    have apart := sound.contexts.apart found held different
    have above := stackPointer_above core.processor.memory address
    rw [size] at above
    exact Memory.store_agree _ (by rw [r0Offset]; omega)
  obtain ⟨aligned, room, clear, free⟩ := sound.interruptible
  refine ⟨sound.change ⟨aligned, room, clear, free⟩ fun {thread place} found => ?_, ?_⟩
  · by_cases same : thread = caller
    · rw [same, held, Option.some.injEq] at found
      exact found ▸ pointer
    · exact (resumed_agree (others found same)).2
  · refine congrArg (Threads.mk core.active) (funext fun thread => (view_store core _ thread).trans ?_)
    by_cases same : thread = caller
    · rw [same, Function.update_self, if_neg idle, view_registers, if_neg idle, held]
      refine congrArg some ?_
      rw [resumed, resumedContext, pointer, changed]
      rfl
    · rw [Function.update_of_ne same, view_registers]
      by_cases active : thread = core.active
      · rw [if_pos active, if_pos active]
      · rw [if_neg active, if_neg active]
        cases found : core.stashed thread with
        | none => rfl
        | some place => exact congrArg some (resumed_agree (others found same)).1

private theorem Sound.setup (sound : core.Sound) {thread : ThreadId} {address : Nat}
    {context : FullRegisterContext}
    (allowed : core.permitted (.setup thread address context)) :
    Sound { core.store (storeWords core.processor.memory address context.words) with
      stashed := Function.update core.stashed thread (some address) } ∧
    view { core.store (storeWords core.processor.memory address context.words) with
      stashed := Function.update core.stashed thread (some address) } =
        core.view.set thread (some ⟨context, address + size⟩) := by
  obtain ⟨-, idle, positive, even, bound, clear, unused, below⟩ := allowed
  have loaded : load (storeWords core.processor.memory address context.words) address = context :=
    load_of_words words_storeWords
  have pointer : stackPointer (storeWords core.processor.memory address context.words) address =
    address + size := by
    rw [stackPointer, loaded, clear, Nat.mul_zero, Nat.add_zero]
  have kept {other : ThreadId} {place : Nat} (found : core.stashed other = some place) :
      core.processor.memory.Agree (storeWords core.processor.memory address context.words) place
        (stackPointer core.processor.memory place) :=
    storeWords_agree (unused other place found).symm
  obtain ⟨aligned, room, stackClear, free⟩ := sound.interruptible
  have stored : Sound (core.store (storeWords core.processor.memory address context.words)) :=
    sound.change ⟨aligned, room, stackClear, free⟩ fun found => (resumed_agree (kept found)).2
  refine ⟨⟨?_, ⟨aligned, room, stackClear, ?_⟩,
    stored.contexts.insert ⟨positive, even, pointer ▸ bound⟩ ?_⟩, ?_⟩
  · exact (Function.update_of_ne idle.symm ..).trans sound.running
  · intro other place found
    have updated : Function.update core.stashed thread (some address) other = some place := found
    by_cases same : other = thread
    · rw [same, Function.update_self, Option.some.injEq] at updated
      have end_of_context : stackPointer (storeWords core.processor.memory address context.words)
        place = place + size := updated ▸ pointer
      exact (updated ▸ below.symm).imp id end_of_context.le.trans
    · rw [Function.update_of_ne same] at updated
      exact stored.interruptible.free other place updated
  · intro other place found
    have apart := unused other place found
    rw [← (resumed_agree (kept found)).2, ← pointer] at apart
    exact apart
  · refine congrArg (Threads.mk core.active) (funext fun other => ?_)
    have registers : (view { core.store (storeWords core.processor.memory address context.words) with
        stashed := Function.update core.stashed thread (some address) }).registers other =
          if other = core.active then some ⟨.current core.processor, core.processor.address .sp⟩
          else (Function.update core.stashed thread (some address) other).map
            (resumed (storeWords core.processor.memory address context.words)) := rfl
    refine registers.trans ?_
    by_cases same : other = thread
    · rw [same, if_neg idle, Function.update_self, Function.update_self, Option.map_some, resumed,
        resumedContext, pointer, loaded,
        withPadding_zero clear]
    · rw [Function.update_of_ne same, Function.update_of_ne same, view_registers]
      by_cases active : other = core.active
      · rw [if_pos active, if_pos active]
      · rw [if_neg active, if_neg active]
        cases found : core.stashed other with
        | none => rfl
        | some place => exact congrArg some (resumed_agree (kept found)).1

private theorem Sound.destroy (sound : core.Sound) (thread : ThreadId) :
    Sound { core with stashed := Function.update core.stashed thread none } ∧
    view { core with stashed := Function.update core.stashed thread none } =
      if thread = core.active then core.view else core.view.set thread none := by
  have running : Function.update core.stashed thread none core.active = none := by
    by_cases same : core.active = thread
    · rw [same, Function.update_self]
    · rw [Function.update_of_ne same, sound.running]
  obtain ⟨aligned, room, clear, free⟩ := sound.interruptible
  refine ⟨⟨running, ⟨aligned, room, clear, ?_⟩, sound.contexts.remove thread⟩, ?_⟩
  · intro other place found
    have updated : Function.update core.stashed thread none other = some place := found
    by_cases same : other = thread
    · rw [same, Function.update_self] at updated
      cases updated
    · rw [Function.update_of_ne same] at updated
      exact free other place updated
  · have registers (other : ThreadId) : (view { core with stashed := Function.update core.stashed thread none }).registers other =
        if other = core.active then some ⟨.current core.processor, core.processor.address .sp⟩
        else (Function.update core.stashed thread none other).map (resumed core.processor.memory) :=
          rfl
    by_cases active : thread = core.active
    · rw [if_pos active]
      refine congrArg (Threads.mk core.active) (funext fun other => ((registers other).trans ?_).trans (view_registers core other).symm)
      by_cases same : other = core.active
      · rw [if_pos same, if_pos same]
      · rw [if_neg same, if_neg same, Function.update_of_ne (active ▸ same)]
    · rw [if_neg active]
      refine congrArg (Threads.mk core.active) (funext fun other => (registers other).trans ?_)
      by_cases same : other = thread
      · rw [same, if_neg active, Function.update_self, Function.update_self, Option.map_none]
      · rw [Function.update_of_ne same, Function.update_of_ne same, view_registers]

/-- Every event does to the registers of the threads what it does to threads that have registers of
their own. -/
theorem Sound.step (sound : core.Sound) {event : SwitchEvent} (allowed : core.permitted event) :
    ∃ after, core.execute event = .ok after ∧ after.Sound ∧ after.view = core.view.step event := by
  cases event with
  | compute processor =>
    obtain ⟨kept, view⟩ := sound.compute allowed.1 allowed.2
    exact ⟨_, rfl, kept, view⟩
  | interrupt number next links scratch => exact sound.interrupt allowed.2 links scratch
  | storeReturn caller value =>
    obtain ⟨address, held⟩ := Option.isSome_iff_exists.mp allowed
    obtain ⟨kept, view⟩ := sound.storeReturn held value
    refine ⟨_, ?_, kept, view⟩
    rw [execute, held]
    rfl
  | setup thread address context =>
    obtain ⟨kept, view⟩ := sound.setup allowed
    exact ⟨_, rfl, kept, view⟩
  | destroy thread =>
    obtain ⟨kept, view⟩ := sound.destroy thread
    exact ⟨_, rfl, kept, view⟩

end SwitchState

end

/-- In every run the threads go on as if each of them had a processor of its own, and no step of
the run could have faulted. -/
theorem switches_unnoticed {start final : SwitchState} {history : List (SwitchState × SwitchEvent)}
    (sound : start.Sound)
    (run : SwitchState.machine.Run start history final) :
    final.view = (history.map Prod.snd).foldl Threads.step start.view ∧
    ∀ event, final.permitted event → ∃ after, final.execute event = .ok after := by
  have both : final.Sound ∧ final.view = (history.map Prod.snd).foldl Threads.step start.view := by
    induction run with
    | start => exact ⟨sound, rfl⟩
    | @step history state event next run permitted executed ih =>
      obtain ⟨after, done, kept, view⟩ := ih.1.step permitted
      obtain rfl : after = next := Except.ok.inj (done.symm.trans executed)
      refine ⟨kept, ?_⟩
      rw [view, ih.2, List.map_append, List.foldl_append]
      rfl
  refine ⟨both.2, fun event permitted => ?_⟩
  obtain ⟨after, done, -⟩ := both.1.step permitted
  exact ⟨after, done⟩

def startedSwitchState : SwitchState := ⟨⟨fun _ => 0x1000, 0, 0, fun _ => 0⟩, 0, fun _ => none⟩

def idleContext : FullRegisterContext :=
  ⟨0, 0, 0, 0, 0, 0, 0, 0, 0, 0, 0, 0, 0, 0, 0x10000001, 0x01000000⟩

private theorem startedSwitchState_sound : startedSwitchState.Sound := by
  have none_stashed {thread : ThreadId} {address : Nat}
    (held : startedSwitchState.stashed thread = some address) : False := by
    cases held
  exact ⟨rfl, ⟨rfl, by decide, rfl, fun _ _ held => (none_stashed held).elim⟩,
    fun held => (none_stashed held).elim, fun held => (none_stashed held).elim⟩

/-- A second thread is set up and a `PendSV` switches to it. -/
theorem switches_unnoticed_started :
    ∃ history final, SwitchState.machine.Run startedSwitchState history final ∧
      history.map Prod.snd = [.setup 1 0x2000 idleContext,
        .interrupt 14 1 ⟨0, 0, 0⟩ ⟨0, 0, 0, 0, 0, 0⟩] ∧
      final.view.active = 1 ∧ final.view.registers 1 = some ⟨idleContext, 0x2040⟩ ∧
      final.view.registers 0 = startedSwitchState.view.registers 0 := by
  have first : startedSwitchState.permitted (.setup 1 0x2000 idleContext) := by
    refine ⟨rfl, by decide, by decide, rfl, by decide, rfl, ?_, .inr (by decide)⟩
    intro thread address held
    cases held
  obtain ⟨prepared, done, sound, -⟩ := startedSwitchState_sound.step first
  have stashed : prepared.stashed 1 = some 0x2000 := by
    rw [← Except.ok.inj done]
    rfl
  have second : prepared.permitted (.interrupt 14 1 ⟨0, 0, 0⟩ ⟨0, 0, 0, 0, 0, 0⟩) :=
    ⟨by decide, .inr (by rw [stashed]; rfl)⟩
  obtain ⟨final, switched, -⟩ := sound.step second
  have one := @Machine.Run.step _ _ _ SwitchState.machine startedSwitchState [] startedSwitchState
    (.setup 1 0x2000 idleContext)
    prepared .start first done
  have run := @Machine.Run.step _ _ _ SwitchState.machine startedSwitchState _ prepared
    (.interrupt 14 1 ⟨0, 0, 0⟩ ⟨0, 0, 0, 0, 0, 0⟩)
    final one second switched
  have view := (switches_unnoticed startedSwitchState_sound run).1
  refine ⟨_, final, run, rfl, ?_, ?_, ?_⟩
  · rw [view]
    rfl
  · rw [view]
    rfl
  · rw [view]
    rfl

end PicoOs.Kernel
