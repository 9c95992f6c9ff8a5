import PicoOs.Library.Machine
import PicoOs.Std.CircularQueue
import PicoOs.Std.Path

/-! Processes and the system calls by which they create, await and leave each other. A
process is suspended while a worker thread serves its call, so what its thread and the
worker do is one sequence of steps; the steps of different processes interleave. -/

namespace PicoOs.Kernel
open Library PicoOs.Std

abbrev ProcessRef := Nat

structure TerminatedProcess where
  processId : Int32
  status : Int32
  deriving DecidableEq

/-- `notDelivered` is the assertion behind the enqueue in `sys$exit`. -/
inductive ProcessFault where
  | queue (fault : QueueFault)
  | notDelivered
  deriving DecidableEq

/-- Where the thread of a process, or the worker that serves its call, is. A process is
`creating` and `adopting` between `Process::create` and the two assignments behind it. -/
inductive ProcessPhase where
  | running
  | creating (child : ProcessRef)
  | adopting (child : ProcessRef)
  | placing (child : ProcessRef)
  | waiting
  | collecting
  | exiting (status : Int32)
  | delivered
  | exited
  deriving DecidableEq

structure Process where
  processId : Int32
  parent : Option ProcessRef
  workingDirectory : Path
  terminatedChildren : CircularQueue TerminatedProcess 8
  phase : ProcessPhase

def Process.construct (processId : Int32) : Process where
  processId := processId
  parent := none
  workingDirectory := .root
  terminatedChildren := .construct
  phase := .running

structure ProcessTable where
  processes : ProcessRef → Process
  next : ProcessRef
  nextProcessId : Int32

inductive ProcessStep where
  | work
  | chdir (path : Path)
  | create
  | assignParent (child : ProcessRef)
  | assignDirectory (child : ProcessRef)
  | finishSpawn (child : ProcessRef)
  | wait
  | poll
  | collect
  | exit (status : Int32)
  | deliver (status : Int32)
  | checkDelivered
  deriving DecidableEq

/-- The phase in which the code takes the step. -/
def ProcessStep.phase : ProcessStep → ProcessPhase
  | .work | .chdir _ | .create | .wait | .exit _ => .running
  | .assignParent child => .creating child
  | .assignDirectory child => .adopting child
  | .finishSpawn child => .placing child
  | .poll => .waiting
  | .collect => .collecting
  | .deliver status => .exiting status
  | .checkDelivered => .delivered

structure ProcessEvent where
  process : ProcessRef
  step : ProcessStep
  deriving DecidableEq

namespace ProcessTable

def modify (table : ProcessTable) (process : ProcessRef) (change : Process → Process) :
    ProcessTable :=
  { table with processes := Function.update table.processes process (change (table.processes process)) }

def setPhase (table : ProcessTable) (process : ProcessRef) (phase : ProcessPhase) : ProcessTable :=
  table.modify process fun value => { value with phase }

/-- `Process::create`, which returns when the thread of the new process is queued. -/
def create (table : ProcessTable) (process : ProcessRef) : ProcessTable :=
  let child := table.next
  let table := table.setPhase process (.creating child)
  { processes := Function.update table.processes child (.construct table.nextProcessId)
    next := table.next + 1
    nextProcessId := table.nextProcessId + 1 }

/-- `new_process.m_parent = m_process` -/
def assignParent (table : ProcessTable) (process child : ProcessRef) : ProcessTable :=
  (table.modify child fun value => { value with parent := some process }).setPhase process
    (.adopting child)

/-- `new_process.m_working_directory = m_process->m_working_directory` -/
def assignDirectory (table : ProcessTable) (process child : ProcessRef) : ProcessTable :=
  let workingDirectory := (table.processes process).workingDirectory
  (table.modify child fun value => { value with workingDirectory }).setPhase process
    (.placing child)

/-- One round of the loop in `sys$wait`. -/
def poll (table : ProcessTable) (process : ProcessRef) : ProcessTable :=
  if (table.processes process).terminatedChildren.size > 0 then table.setPhase process .collecting
  else table

/-- What `sys$wait` returns. -/
def collect (table : ProcessTable) (process : ProcessRef) :
    Except ProcessFault (TerminatedProcess × ProcessTable) :=
  match (table.processes process).terminatedChildren.dequeue with
  | .error fault => .error (.queue fault)
  | .ok (terminated, terminatedChildren) =>
    .ok (terminated, table.modify process fun value => { value with terminatedChildren, phase := .running })

/-- The enqueue in `sys$exit`. -/
def deliver (table : ProcessTable) (process : ProcessRef) (status : Int32) :
    Except ProcessFault ProcessTable :=
  match (table.processes process).parent with
  | none => .ok (table.setPhase process .exited)
  | some parent =>
    match (table.processes parent).terminatedChildren.enqueue
      ⟨(table.processes process).processId, status⟩ with
    | .error fault => .error (.queue fault)
    | .ok terminatedChildren =>
      .ok ((table.modify parent fun value => { value with terminatedChildren }).setPhase process .delivered)

/-- `ASSERT(m_process->m_parent->m_terminated_children.size() > 0)` -/
def checkDelivered (table : ProcessTable) (process : ProcessRef) :
    Except ProcessFault ProcessTable :=
  match (table.processes process).parent with
  | none => .ok (table.setPhase process .exited)
  | some parent =>
    if (table.processes parent).terminatedChildren.size > 0 then
      .ok (table.setPhase process .exited)
    else .error .notDelivered

def permitted (table : ProcessTable) (event : ProcessEvent) : Prop :=
  event.process < table.next ∧ (table.processes event.process).phase = event.step.phase

instance (table : ProcessTable) (event : ProcessEvent) : Decidable (table.permitted event) := by
  unfold permitted; infer_instance

def step (table : ProcessTable) (process : ProcessRef) :
    ProcessStep → Except ProcessFault ProcessTable
  | .work => .ok table
  | .chdir path => .ok (table.modify process fun value => { value with workingDirectory := path })
  | .create => .ok (table.create process)
  | .assignParent child => .ok (table.assignParent process child)
  | .assignDirectory child => .ok (table.assignDirectory process child)
  | .finishSpawn _ => .ok (table.setPhase process .running)
  | .wait => .ok (table.setPhase process .waiting)
  | .poll => .ok (table.poll process)
  | .collect => Prod.snd <$> table.collect process
  | .exit status => .ok (table.setPhase process (.exiting status))
  | .deliver status => table.deliver process status
  | .checkDelivered => table.checkDelivered process

def machine : Machine ProcessTable ProcessEvent ProcessFault where
  permitted := permitted
  execute table event := table.step event.process event.step

instance (table : ProcessTable) (event : ProcessEvent) :
    Decidable (machine.permitted table event) :=
  inferInstanceAs (Decidable (table.permitted event))

def boot : ProcessTable where
  processes _ := .construct 0
  next := 1
  nextProcessId := 1

end ProcessTable
end PicoOs.Kernel
