import PicoOs.Kernel.System

/-! The thread system as each thread sees it. Every reference to a thread is counted
by the place it stands for: a thread is running, ready, parked in a system call, doomed
or nascent, besides what the mutexes hold of it. A view is what one thread's life
depends on, and `Fine` is what holds of every view between two steps. -/

namespace PicoOs.Kernel

inductive Role where
  | default
  | fallback
  | dummy
  | handler
  | ordinary
  deriving DecidableEq

inductive Hold where
  | ready
  | parked
  | doomed
  | nascent
  deriving DecidableEq

namespace ProgramPoint

def holds : ProgramPoint → List (Hold × ThreadId)
  | defaultRelease thread => [(.doomed, thread)]
  | handlerTaken thread | handlerContext thread | workerCall thread | workerReturn thread _ _
  | workerStored thread _ => [(.parked, thread)]
  | workerUnmasked thread => [(.ready, thread)]
  | returned captured | dying captured
  | halted captured => captured.toList.map fun thread => (.parked, thread)
  | _ => []

private theorem holds_references (point : ProgramPoint) :
    point.holds.map Prod.snd = point.references := by
  cases point with
  | returned captured => cases captured <;> rfl
  | dying captured => cases captured <;> rfl
  | halted captured => cases captured <;> rfl
  | _ => rfl

def fits : ProgramPoint → Role → Bool
  | dummyStart, role | dummyEnabled, role => role = .dummy
  | defaultLoop, role | defaultRelease _, role | defaultDestroying _, role => role = .default
  | fallbackLoop, role => role = .fallback
  | handlerLoop, role | handlerTake, role | handlerTaken _, role | handlerContext _, role
  | handlerSpawned, role
  | handlerDone, role => role = .handler
  | fresh, role => role = .handler || role = .ordinary
  | halted captured, role => role = .ordinary || (role = .dummy && captured = none)
  | _, role => role = .ordinary

def setUp : ProgramPoint → Bool
  | unborn | fresh | destroyed => false
  | _ => true

def gone : ProgramPoint → Bool
  | unborn | destroyed => true
  | _ => false

def ends : ProgramPoint → Bool
  | dummyStart | dummyEnabled | dying _ | halted _ => true
  | _ => false

def mayHaveChild : ProgramPoint → Bool
  | handlerSpawned => true
  | point => point.creates

@[grind →]
theorem gone_excludes {point : ProgramPoint} (ended : point.gone = true) :
    point.setUp = false ∧ point.ends = false ∧ point.allocates = false ∧
    point.mayHaveChild = false ∧
      point ≠ .userMode ∧ point ≠ .fresh := by
  cases point with
  | unborn | destroyed => decide
  | _ => cases ended

private theorem setUp_or_fresh {point : ProgramPoint} (present : point.gone = false) :
    point.setUp = true ∨ point = .fresh := by
  cases point with
  | unborn | destroyed => cases present
  | fresh => exact Or.inr rfl
  | _ => exact Or.inl rfl

@[grind →]
theorem setUp_excludes {point : ProgramPoint} (ready : point.setUp = true) :
    point.gone = false ∧ point ≠ .fresh ∧ point ≠ .unborn := by
  cases point with
  | unborn | fresh | destroyed => cases ready
  | _ => exact ⟨rfl, nofun, nofun⟩

@[grind →]
theorem ends_excludes {point : ProgramPoint} (ended : point.ends = true) :
    point.setUp = true ∧ point.allocates = false ∧ point.mayHaveChild = false ∧
    point ≠ .userMode := by
  cases point with
  | dummyStart | dummyEnabled | dying | halted => exact ⟨rfl, rfl, rfl, nofun⟩
  | _ => cases ended

@[grind →]
theorem allocates_excludes {point : ProgramPoint} (allocating : point.allocates = true) :
    point.setUp = true ∧ point.ends = false ∧ point ≠ .userMode := by
  cases point <;> simp_all [allocates, setUp, ends]

@[grind →]
theorem mayHaveChild_setUp {point : ProgramPoint} (creating : point.mayHaveChild = true) :
    point.setUp = true := by
  cases point <;> simp_all [mayHaveChild, creates, setUp]

@[grind →]
theorem fits_ends {point : ProgramPoint} {role : Role} (fit : point.fits role = true)
    (ended : point.ends = true) :
    role = .ordinary ∨ role = .dummy := by
  cases point with
  | dummyStart | dummyEnabled => exact Or.inr (of_decide_eq_true fit)
  | dying captured => exact Or.inl (of_decide_eq_true fit)
  | halted captured => cases role <;> simp_all [fits]
  | _ => cases ended

@[grind →]
theorem fits_allocates {point : ProgramPoint} {role : Role} (fit : point.fits role = true)
    (allocating : point.allocates = true) : role ≠ .fallback ∧ role ≠ .dummy := by
  cases role <;> cases point <;> simp_all [fits, allocates]

@[grind →]
theorem fits_userMode {point : ProgramPoint} {role : Role} (fit : point.fits role = true)
    (user : point = .userMode) :
    role = .ordinary := by
  subst user
  exact of_decide_eq_true fit

@[grind →]
theorem fits_gone {point : ProgramPoint} {role : Role} (fit : point.fits role = true)
    (ended : point.gone = true) :
    role = .ordinary := by
  cases point with
  | unborn | destroyed => exact of_decide_eq_true fit
  | _ => cases ended

@[grind →]
theorem fits_static {point : ProgramPoint} {role : Role} (fit : point.fits role = true)
    (static : role = .default ∨ role = .fallback ∨ role = .dummy) : point.setUp = true := by
  cases point with
  | unborn | fresh | destroyed => cases role <;> simp_all [fits]
  | _ => rfl

end ProgramPoint

def Child.holds : Child → List (Hold × ThreadId)
  | none => []
  | fresh thread => [(.nascent, thread)]
  | prepared thread => [(.ready, thread)]

private theorem Child.holds_references (child : Child) :
    child.holds.map Prod.snd = child.references := by cases child <;> rfl

def Thread.holds (thread : Thread) : List (Hold × ThreadId) :=
  thread.point.holds ++ thread.child.holds

theorem Thread.holds_references (thread : Thread) :
    thread.holds.map Prod.snd = thread.references := by
  rw [holds, List.map_append, ProgramPoint.holds_references, Child.holds_references, references]

@[ext]
structure View where
  thread : Thread
  role : Role
  born : Bool
  running : Nat
  queued : Nat
  tally : Hold → Nat
  holding : MutexId → Nat
  waits : MutexId → Nat

namespace View

@[grind =]
def static (view : View) : Nat := if view.role = .ordinary then 0 else 1

@[grind =]
def ready (view : View) : Nat := view.queued + view.tally .ready

@[grind =]
def places (view : View) : Nat :=
  view.running + view.ready + view.tally .parked + view.tally .doomed + view.tally .nascent

@[grind =]
def locked (view : View) : Nat :=
  view.holding .malloc + view.waits .malloc + (view.holding .pageAllocator + view.waits .pageAllocator)

end View

structure Fine (view : View) : Prop where
  exact : view.thread.refcount = view.places + view.static + view.locked
  single : view.role ≠ .default → view.places ≤ 1
  fits : view.thread.point.fits view.role = true
  flag : view.thread.isDefaultThread = true ↔ view.role = .default ∨ view.role = .fallback
  ready : 1 ≤ view.ready → view.thread.point.setUp = true ∧
    (view.role ≠ .default → view.thread.maskedFromScheduler = false)
  due : 1 ≤ view.tally .ready → view.role = .ordinary
  reached : 1 ≤ view.locked → view.thread.point.setUp = true
  quiet : view.role = .fallback ∨ view.role = .dummy → view.ready = 0 ∧ view.locked = 0
  parked : 1 ≤ view.tally .parked → view.thread.point = .userMode ∧
    view.thread.maskedFromScheduler = true
  doomed : 1 ≤ view.tally .doomed → view.thread.point.ends = true ∧ view.thread.refcount = 1
  nascent : 1 ≤ view.tally .nascent → view.thread.point = .fresh ∧ view.role = .ordinary
  running : 1 ≤ view.running → view.thread.point.setUp = true
  fresh : view.thread.point = .fresh → view.tally .nascent = 1 ∨ view.role = .handler
  unmasked : view.role = .ordinary ∨ view.role = .handler → view.thread.point.setUp = true →
    view.thread.maskedFromScheduler = false → 1 ≤ view.running + view.ready
  masked : view.role = .ordinary → view.thread.maskedFromScheduler = true →
    view.thread.acquiring ≠ none ∨ view.thread.point.ends = true ∨ 1 ≤ view.tally .parked
  blocked : view.role = .ordinary ∨ view.role = .handler → view.thread.maskedFromScheduler = true →
    ∀ mutex, view.thread.acquiring = some mutex → 1 ≤ view.waits mutex
  waits : view.role = .ordinary → ∀ mutex, 1 ≤ view.waits mutex →
    view.thread.maskedFromScheduler = true ∧ view.thread.acquiring = some mutex ∧
      view.waits mutex = 1
  holding : view.role = .ordinary → ∀ mutex, 1 ≤ view.holding mutex →
    mutex ∈ view.thread.locks ∨ view.thread.acquiring = some mutex
  locks : view.thread.locks ≠ [] ∨ view.thread.acquiring ≠ none → view.thread.point.allocates = true
  ends : view.thread.point.ends = true → view.thread.maskedFromScheduler = true
  ended : view.role = .ordinary → view.thread.point.ends = true →
    1 ≤ view.running + view.tally .doomed
  fallback : view.role = .fallback → view.thread.maskedFromScheduler = false
  dummy : view.role = .dummy → view.thread.maskedFromScheduler = true
  handlerFresh : view.role = .handler → view.thread.point = .fresh →
    view.thread.maskedFromScheduler = true
  born : view.born = false ↔ view.thread.point = .unborn
  gone : view.thread.point.gone = true → view.thread.refcount = 0
  child : view.thread.child ≠ .none → view.thread.point.mayHaveChild = true

namespace Fine
variable {view : View}

attribute [local grind] ProgramPoint.fits ProgramPoint.setUp ProgramPoint.ends ProgramPoint.gone

theorem setContext (fine : Fine view) (context : Option FullRegisterContext)
    (ranges : List PageRange)
    (privileged : Bool) :
    Fine { view with thread := { view.thread with
      stashedContext := context, ownedPageRanges := ranges, privileged := privileged } } := by
  cases fine
  constructor <;> assumption

theorem advance (fine : Fine view) (active : 1 ≤ view.running) {point : ProgramPoint}
    {child : Child}
    (fits : point.fits view.role = true) (setUp : point.setUp = true)
    (ends : point.ends = view.thread.point.ends)
    (unlocked : view.thread.locks = []) (acquiring : view.thread.acquiring = none)
    (creates : child ≠ .none → point.mayHaveChild = true) :
    Fine { view with thread := { view.thread with point := point, child := child } } := by
  cases fine
  constructor <;> first | assumption | grind -ring -linarith

theorem mask (fine : Fine view) (active : 1 ≤ view.running) (role : view.role = .ordinary)
    (unlocked : view.thread.locks = []) (acquiring : view.thread.acquiring = none)
    (child : view.thread.child = .none)
    {captured : Option ThreadId} :
    Fine { view with thread := { view.thread with maskedFromScheduler := true, point := .dying captured } } := by
  cases fine
  constructor <;> first | assumption | grind -ring -linarith

theorem enter (fine : Fine view) (mutex : MutexId) (_active : 1 ≤ view.running)
    (allocates : view.thread.point.allocates = true)
    (acquiring : view.thread.acquiring = none ∨ view.thread.acquiring = some mutex)
    (unmasked : view.role = .ordinary → view.thread.maskedFromScheduler = false) :
    Fine { view with thread := { view.thread with acquiring := none, locks := mutex :: view.thread.locks } } := by
  cases fine
  constructor <;> first | assumption | grind -ring -linarith

theorem acquire (fine : Fine view) (mutex : MutexId) (active : 1 ≤ view.running)
    (allocates : view.thread.point.allocates = true) (acquiring : view.thread.acquiring = none)
    (unmasked : view.role = .ordinary → view.thread.maskedFromScheduler = false) :
    Fine { view with
      thread := { view.thread with
        refcount := view.thread.refcount + 1, acquiring := none,
          locks := mutex :: view.thread.locks }
      holding := Function.update view.holding mutex (view.holding mutex + 1) } := by
  cases fine
  cases mutex
  all_goals constructor <;> first | assumption | grind -ring -linarith [Function.update_apply]

theorem block (fine : Fine view) (mutex : MutexId) (active : 1 ≤ view.running)
    (allocates : view.thread.point.allocates = true) (acquiring : view.thread.acquiring = none) :
    Fine { view with
      thread := { view.thread with
        refcount := view.thread.refcount + 1, maskedFromScheduler := true, acquiring := some mutex }
      waits := Function.update view.waits mutex (view.waits mutex + 1) } := by
  cases fine
  cases mutex
  all_goals constructor <;> first | assumption | grind -ring -linarith [Function.update_apply]

theorem unlock (fine : Fine view) (mutex : MutexId) (acquiring : view.thread.acquiring = none) :
    Fine { view with
      thread := { view.thread with
        refcount := view.thread.refcount - view.holding mutex,
          locks := view.thread.locks.erase mutex }
      holding := Function.update view.holding mutex 0 } := by
  cases fine
  cases mutex
  all_goals constructor <;> first | assumption | grind -ring -linarith [Function.update_apply]

theorem release (fine : Fine view) (mutex : MutexId) :
    Fine { view with
      thread := { view.thread with refcount := view.thread.refcount - view.holding mutex }
      holding := Function.update view.holding mutex 0 } := by
  cases fine
  cases mutex
  all_goals constructor <;> first | assumption | grind -ring -linarith [Function.update_apply]

theorem inherit (fine : Fine view) (mutex : MutexId) (waiting : 1 ≤ view.waits mutex)
    (unmasked : view.thread.maskedFromScheduler = false) :
    Fine { view with
      holding := Function.update view.holding mutex (view.holding mutex + 1)
      waits := Function.update view.waits mutex (view.waits mutex - 1) } := by
  cases fine
  cases mutex
  all_goals constructor <;> first | assumption | grind -ring -linarith [Function.update_apply]

theorem awake (fine : Fine view) (mutex : MutexId) (waiting : 1 ≤ view.waits mutex)
    (stopped : view.running = 0)
    (masked : view.thread.maskedFromScheduler = true) :
    Fine { view with
      thread := { view.thread with refcount := view.thread.refcount + 1, maskedFromScheduler := false }
      queued := view.queued + 1
      holding := Function.update view.holding mutex (view.holding mutex + 1)
      waits := Function.update view.waits mutex (view.waits mutex - 1) } := by
  cases fine
  cases mutex
  all_goals constructor <;> first | assumption | grind -ring -linarith [Function.update_apply]

theorem wake (fine : Fine view) (role : view.role = .handler)
    (setUp : view.thread.point.setUp = true)
    (masked : view.thread.maskedFromScheduler = true) (stopped : view.running = 0) :
    Fine { view with
      thread := { view.thread with refcount := view.thread.refcount + 1, maskedFromScheduler := false }
      queued := view.queued + 1 } := by
  cases fine
  constructor <;> first | assumption | grind -ring -linarith

theorem park (fine : Fine view) (role : view.role = .handler) (active : 1 ≤ view.running)
    (acquiring : view.thread.acquiring = none) :
    Fine { view with thread := { view.thread with maskedFromScheduler := true } } := by
  cases fine
  constructor <;> first | assumption | grind -ring -linarith

theorem leave (fine : Fine view) (_active : view.running = 1)
    (rests : view.thread.maskedFromScheduler = true ∨ view.role = .default ∨ view.role = .fallback)
    (shared : 2 ≤ view.thread.refcount) :
    Fine { view with thread := { view.thread with refcount := view.thread.refcount - 1 }, running := 0 } := by
  cases fine
  constructor <;> first | assumption | grind -ring -linarith

theorem doom (fine : Fine view) (active : view.running = 1)
    (masked : view.thread.maskedFromScheduler = true)
    (single : view.thread.refcount = 1) : Fine { view with
      running := 0
      tally := Function.update view.tally .doomed (view.tally .doomed + 1) } := by
  cases fine
  rcases acquiring : view.thread.acquiring with _ | (_ | _)
  all_goals constructor <;> first | assumption | grind -ring -linarith [Function.update_apply]

theorem requeue (fine : Fine view) (active : view.running = 1)
    (unmasked : view.thread.maskedFromScheduler = false)
    (default : view.role ≠ .default) (fallback : view.role ≠ .fallback) :
    Fine { view with running := 0, queued := view.queued + 1 } := by
  cases fine
  constructor <;> first | assumption | grind -ring -linarith

theorem dispatch (fine : Fine view) (stopped : view.running = 0) (queued : 1 ≤ view.queued) :
    Fine { view with running := 1, queued := view.queued - 1 } := by
  cases fine
  constructor <;> first | assumption | grind -ring -linarith

theorem idle (fine : Fine view) (stopped : view.running = 0)
    (role : view.role = .default ∨ view.role = .fallback) :
    Fine { view with thread := { view.thread with refcount := view.thread.refcount + 1 }, running := 1 } := by
  cases fine
  constructor <;> first | assumption | grind -ring -linarith

theorem join (fine : Fine view) (due : 1 ≤ view.tally .ready) :
    Fine { view with
      queued := view.queued + 1
      tally := Function.update view.tally .ready (view.tally .ready - 1) } := by
  cases fine
  constructor <;> first | assumption | grind -ring -linarith [Function.update_apply]

theorem suspend (fine : Fine view) (active : view.running = 1)
    (user : view.thread.point = .userMode) :
    Fine { view with
      thread := { view.thread with maskedFromScheduler := true }
      running := 0
      tally := Function.update view.tally .parked (view.tally .parked + 1) } := by
  cases fine
  constructor <;> first | assumption | grind -ring -linarith [Function.update_apply]

theorem resume (fine : Fine view) (parked : 1 ≤ view.tally .parked) :
    Fine { view with
      thread := { view.thread with maskedFromScheduler := false }
      tally := Function.update (Function.update view.tally .parked (view.tally .parked - 1)) .ready
        (view.tally .ready + 1) } := by
  cases fine
  constructor <;> first | assumption | grind -ring -linarith [Function.update_apply]

theorem destroy (fine : Fine view) (doomed : 1 ≤ view.tally .doomed) :
    Fine { view with
      thread := { Thread.unborn with point := .destroyed }
      tally := Function.update view.tally .doomed (view.tally .doomed - 1) } := by
  cases fine
  constructor <;> first | assumption | grind -ring -linarith [Function.update_apply, Thread.unborn]

theorem prepare (fine : Fine view) (nascent : 1 ≤ view.tally .nascent) {point : ProgramPoint}
    (fits : point.fits .ordinary = true) (setUp : point.setUp = true) (ends : point.ends = false) :
    Fine { view with
      thread := { view.thread with point := point }
      tally := Function.update (Function.update view.tally .nascent (view.tally .nascent - 1))
        .ready (view.tally .ready + 1) } := by
  cases fine
  constructor <;> first | assumption | grind -ring -linarith [Function.update_apply, Thread.unborn]

theorem prepareHandler (fine : Fine view) (role : view.role = .handler)
    (fresh : view.thread.point = .fresh) :
    Fine { view with thread := { view.thread with point := .handlerLoop } } := by
  cases fine
  constructor <;> first | assumption | grind -ring -linarith [Thread.unborn]

theorem spawn (fine : Fine view) (born : view.born = false) :
    Fine { view with
      thread := { Thread.construct with privileged := true }
      born := true
      tally := Function.update view.tally .nascent (view.tally .nascent + 1) } := by
  cases fine
  constructor <;> first | assumption | grind -ring -linarith
    [Function.update_apply, Thread.unborn, Thread.construct]

theorem spawnHandler (fine : Fine view) (born : view.born = false) :
    Fine { view with
      thread := { Thread.construct with privileged := true, maskedFromScheduler := true }
      role := .handler
      born := true } := by
  cases fine
  constructor <;> first | assumption | grind -ring -linarith [Thread.unborn, Thread.construct]

/-- Only a thread that does not exist has no reference. -/
theorem alive (fine : Fine view) (present : view.thread.point.gone = false) :
    1 ≤ view.thread.refcount := by
  have place := ProgramPoint.setUp_or_fresh present
  cases fine
  by_cases masked : view.thread.maskedFromScheduler = true
  · rcases acquiring : view.thread.acquiring with _ | (_ | _) <;> cases role : view.role <;>
      grind -ring -linarith
  · cases role : view.role <;> grind -ring -linarith

theorem held_twice (fine : Fine view) (mutex : MutexId) (held : 1 ≤ view.holding mutex) :
    2 ≤ view.thread.refcount := by
  cases fine
  by_cases masked : view.thread.maskedFromScheduler = true
  · rcases acquiring : view.thread.acquiring with _ | (_ | _) <;> cases mutex <;>
      grind -ring -linarith [List.ne_nil_of_mem]
  · cases mutex <;> grind -ring -linarith [List.ne_nil_of_mem]
end Fine

end PicoOs.Kernel
