import PicoOs.Kernel.Regions
import PicoOs.Kernel.System
import PicoOs.Library.Protection

/-! The regions of the threads, and the MPU that `schedule` and `hand_over_to_loaded_executable`
program with them. A region is not executable, or it is not writable. -/

namespace PicoOs.Kernel.MPU
open Library.Protection

structure RBAR where
  region : Nat
  valid : Bool
  addr : Nat
  deriving DecidableEq

/-- The union `MPU::Region` of both registers. -/
structure RegionRegisters where
  rbar : RBAR
  rasr : Attributes
  deriving DecidableEq

/-- The part of the constructor of `Thread` that adds the first region. -/
def flashRegion : RegionRegisters := ⟨⟨0, false, 0x10000000 >>> 5⟩, ⟨true, 20, 0, 0b111, false⟩⟩

/-- The region that `setup_context` adds. -/
def stackRegion (stack : PageRange) : Option RegionRegisters :=
  (computeSize stack.size).map fun size =>
    ⟨⟨0, false, stack.base >>> 5⟩, ⟨true, size, 0, 0b011, true⟩⟩

/-- The regions that `Process::create` adds for a loaded executable. -/
def ramRegion (writable : PageRange) : Option RegionRegisters :=
  if writable.base % pageSize = 0 then
    (computeSize writable.size).map fun size =>
      ⟨⟨0, false, writable.base >>> 5⟩, ⟨true, size, 0, 0b011, true⟩⟩
  else none

def romRegion : RegionRegisters := ⟨⟨0, false, 0x00000000 >>> 5⟩, ⟨true, 13, 0, 0b111, false⟩⟩

def clearRegion (unit : ProtectionUnit) (index : Nat) : ProtectionUnit :=
  ((unit.select index).writeBase 0 false 0).writeAttributes ⟨false, 0, 0, 0, false⟩

/-- One round of the loop that installs the regions. -/
def programRegion (unit : ProtectionUnit) (region : RegionRegisters × Nat) :
    Option ProtectionUnit :=
  if region.1.rbar.region = 0 ∧ region.1.rbar.valid = false then
    some ((unit.writeBase region.2 true region.1.rbar.addr).writeAttributes region.1.rasr)
  else none

/-- `setup_mpu`, or `none` where it fails one of its checks. -/
def setupMpu (regions : List RegionRegisters) (unit : ProtectionUnit) : Option ProtectionUnit :=
  if regions.length = 0 then some { unit with enable := false }
  else
    let unit := (List.range 8).foldl clearRegion { unit with enable := false, privdefena := false }
    if regions.length ≤ 8 then do
      let unit ← regions.zipIdx.foldlM programRegion unit
      some { unit with enable := true, privdefena := true }
    else none

/-- The region that the registers describe. -/
def RegionRegisters.region (registers : RegionRegisters) : Library.Protection.Region :=
  ⟨registers.rbar.addr, registers.rasr⟩

end PicoOs.Kernel.MPU

namespace PicoOs.Kernel
open Library Protection MPU

/-- `verify` is a failed check of a function that works on regions. -/
inductive ProtectionFault where
  | kernel (fault : KernelFault)
  | pages (fault : PageFault)
  | verify
  deriving DecidableEq

/-- The thread system with the page allocator, the `m_regions` of all threads and the MPU. The
kernel keeps two ranges for itself: `m_heap` and the `m_input_buffer` of the UART. -/
structure ProtectedState where
  system : State
  pages : PageState
  heap : PageRange
  inputBuffer : PageRange
  regions : ThreadId → List RegionRegisters
  mpu : ProtectionUnit

/-- `receive` is the DMA channel that `configure_dma` has started. -/
inductive ProtectedEvent where
  | system (event : SystemEvent)
  | write (address : Nat) (value : UInt8)
  | receive (address : Nat) (value : UInt8)

def stackPower : Nat := 11

/-- `power_of_two(0x4000)` in `allocate_heap` -/
def heapPower : Nat := 14

def bufferPower : Nat := 10

namespace ProtectedState

def allocate (state : ProtectedState) (power : Nat) : Except ProtectionFault ProtectedState := do
  let pages ← (state.pages.execute (.allocate power)).mapError .pages
  .ok { state with pages }

def deallocate (state : ProtectedState) (range : PageRange) :
    Except ProtectionFault ProtectedState := do
  let pages ← (state.pages.execute (.deallocate range)).mapError .pages
  .ok { state with pages }

def addRegion (state : ProtectedState) (thread : ThreadId) :
    Option RegionRegisters → Except ProtectionFault ProtectedState
  | none => .error .verify
  | some region =>
      .ok { state with regions := Function.update state.regions thread (state.regions thread ++ [region]) }

def install (state : ProtectedState) (thread : ThreadId) : Except ProtectionFault ProtectedState :=
  match setupMpu (state.regions thread) state.mpu with
  | none => .error .verify
  | some mpu => .ok { state with mpu }

/-- The end of `schedule`. -/
def installActive (state : ProtectedState) : Except ProtectionFault ProtectedState :=
  match state.system.activeThread with
  | none => .error (.kernel .noActiveThread)
  | some thread => state.install thread

def giveStack (state : ProtectedState) (thread : ThreadId) (stack : PageRange) :
    Except ProtectionFault ProtectedState := do
  let state ← state.allocate stackPower
  state.addRegion thread (stackRegion stack)

/-- What the lambda of `Process::create` does with the regions before the process is entered. -/
def enterProcess (state : ProtectedState) (thread : ThreadId) (writable : PageRange) :
    Except ProtectionFault ProtectedState := do
  let state ← state.addRegion thread (ramRegion writable)
  let state ← state.addRegion thread (some romRegion)
  state.install thread

/-- What an event does to the pages, the regions and the MPU, where `before` is the thread system
before the event. -/
def accompany (before : State) (state : ProtectedState) :
    SystemEvent → Except ProtectionFault ProtectedState
  | .pendSV | .thread _ .svc => state.installActive
  | .thread _ .constructHandler | .thread _ .construct =>
    .ok { state with regions := Function.update state.regions before.next [flashRegion] }
  | .thread _ (.setupHandler stack _) => state.giveStack (before.systemHandler.getD 0) stack
  | .thread _ (.setup child stack _) => state.giveStack child stack
  | .thread _ (.loadExecutable range) => state.allocate range.power
  | .thread thread .handOver =>
    match (before.threads thread).ownedPageRanges.getLast? with
    | none => .error .verify
    | some writable => state.enterProcess thread writable
  | .thread thread .finishDestroy =>
    match (before.threads thread).point with
    | .defaultDestroying ranges => ranges.foldlM deallocate state
    | _ => .ok state
  | _ => .ok state

/-- The page allocator returns this range. -/
def Gives (state : ProtectedState) (range : PageRange) : Prop :=
  (state.pages.allocator.allocateLocked range.power).toOption.bind Prod.fst = some range

/-- The ranges are the ones that the page allocator returns. A process loads one executable, whose
writable segment contains a stack of more than a page. -/
def supplied (state : ProtectedState) : SystemEvent → Prop
  | .thread _ (.setupHandler stack _)
  | .thread _ (.setup _ stack _) => stack.power = stackPower ∧ state.Gives stack
  | .thread thread (.loadExecutable range) =>
    (state.system.threads thread).ownedPageRanges.length = 1 ∧ pagePower ≤ range.power ∧
      state.Gives range
  | .thread thread .handOver => (state.system.threads thread).ownedPageRanges.length = 2
  | _ => True

instance (state : ProtectedState) (range : PageRange) : Decidable (state.Gives range) := by
  unfold Gives
  infer_instance

instance (state : ProtectedState) (event : SystemEvent) : Decidable (state.supplied event) := by
  unfold supplied
  split <;> infer_instance

def unprivileged (state : ProtectedState) : Prop := state.system.control = 0b11

instance (state : ProtectedState) : Decidable state.unprivileged := by
  unfold unprivileged
  infer_instance

/-- The kernel writes into its own ranges and into what the threads have been given. Processes
write where the MPU lets them, and the DMA into its ring, whatever the mode is. -/
def permitted (state : ProtectedState) : ProtectedEvent → Prop
  | .system event => state.system.permitted event ∧ state.supplied event
  | .write address value =>
    (state.unprivileged ∧ state.mpu.permits false .write address = true) ∨
      (¬state.unprivileged ∧ state.pages.permitted (.write address value))
  | .receive address _ => state.inputBuffer.base ≤ address ∧ address < state.inputBuffer.stop

instance (state : ProtectedState) (event : ProtectedEvent) : Decidable (state.permitted event) := by
  cases event <;> unfold permitted <;> infer_instance

def execute (state : ProtectedState) : ProtectedEvent → Except ProtectionFault ProtectedState
  | .system event => do
    let system ← (state.system.execute event).mapError .kernel
    accompany state.system { state with system } event
  | .write address value | .receive address value =>
    .ok { state with pages.allocator.memory := state.pages.allocator.memory.write address value }

def machine : Machine ProtectedState ProtectedEvent ProtectionFault := ⟨permitted, execute⟩

instance (state : ProtectedState) (event : ProtectedEvent) :
    Decidable (machine.permitted state event) :=
  inferInstanceAs (Decidable (state.permitted event))

def reset : ProtectionUnit := ⟨false, false, 0, fun _ => ⟨0, ⟨false, 0, 0, 0, false⟩⟩⟩

/-- The state in which `Scheduler::loop` hands over to the dummy thread. `main` has given the heap
and the UART their ranges and has set up the startup thread before the others were set up. -/
def boot (memory : Memory) (heapStart heapEnd : Nat) (context : ThreadId → FullRegisterContext) :
    Except PageFault ProtectedState := do
  let allocator ← PageAllocator.construct memory heapStart heapEnd
  let powers := [heapPower, bufferPower, stackPower, stackPower, stackPower, stackPower]
  let pages ← (powers.map PageEvent.allocate).foldlM PageState.execute ⟨allocator, []⟩
  match pages.live with
  | [dummy, fallback, default, startup, inputBuffer, heap] =>
    let stack (thread : ThreadId) : PageRange :=
      [default, fallback, dummy, startup].getD thread startup
    .ok {
      system := .boot stack context
      pages
      heap
      inputBuffer
      regions := fun thread => if thread < 4 then flashRegion :: (stackRegion (stack thread)).toList
        else []
      mpu := reset }
  | _ => .error .verify

end ProtectedState
end PicoOs.Kernel
