import Orditect.Executor.Execute
/-!
# Executions of one task and what interferes with them

Any number of calls of `execute`, `lifecycle.cancel`, `_terminate_single`, `reopen_task`
and `_rerun_node` for one task, interleaved at every `await`.  A call of `execute` either
runs in the process of the executor that a rerun looks at, or in another one.
-/

namespace Orditect.Executor

open Support.LuaJson
open TaskStore (Store taskReopen getTask field)

/-- A call of `execute`.  `birth` is the execution id the record had when it began; `here`
says whether it runs in the observed process, `attached` whether `execute` itself has not
returned yet: a shielded finalisation may outlive it. -/
structure Execution (ν : Type) where
  birth : String
  here : Bool
  timed : Bool
  attached : Bool
  pc : Pc ν

/-- Where the other coroutines stand; `force` tells `_terminate_single` from
`lifecycle.cancel`. -/
inductive Control where
  | cancelRead (force : Bool)
  | requestRead (force : Bool)
  | requestWrite (force : Bool)
  | forceCancel
  | transitionRead
  | transitionWrite
  | drain
  | reopen
  | invalidate
  | rerun
  | ended
  deriving DecidableEq

structure State (ν : Type) where
  store : Store ν
  executions : List (Execution ν)
  controls : List Control
  /-- The entry of the task in `_running_tasks`. -/
  running : Option Nat
  snapshots : List (SnapshotRow ν)

inductive Event (ν : Type) where
  | execute (here timed : Bool)
  | proceed (execution : Nat) (choice : Choice ν)
  | cancel
  | terminate
  | rerun
  | control (index : Nat)
  | controlFails (index : Nat)
  | deadline (index : Nat)
  | reopenNode (index : Nat) (executionId : String)
  | reopenTask (executionId initialStatus : String) (expiry : Option Int)

def Event.executionId {ν : Type} : Event ν → Option String
  | .reopenNode _ executionId | .reopenTask executionId _ _ => some executionId
  | _ => none

def start {ν : Type} (store : Store ν) : State ν := ⟨store, [], [], none, []⟩

section

variable {ν : Type} [DecidableEq ν] [LuaNumber ν]

def Pc.isFinished : Pc ν → Bool
  | .finished => true
  | _ => false

def Pc.isCapture : Pc ν → Bool
  | .captureGeneration => true
  | _ => false

/-- One step of a call; a cancellation reaches it as long as `execute` has not returned. -/
def Execution.next (cfg : Config) (s : Store ν) (x : Execution ν) :
    Choice ν → Option (Execution ν × Effect ν)
  | .interrupt =>
    if x.attached then
      let pc := x.pc.interrupted
      some ({ x with pc := pc, attached := pc.isCapture }, ⟨pc, s, none⟩)
    else none
  | choice =>
    (x.pc.next cfg x.timed s choice).map fun e =>
      ({ x with pc := e.pc, attached := x.attached && !e.pc.isFinished }, e)

def begin (cfg : Config) (here timed : Bool) (s : State ν) : Option (State ν) :=
  match field s.store cfg.taskId "execution_id" with
  | some (.str birth) =>
    some { s with
      executions := s.executions ++ [⟨birth, here, timed, true, .checkCancel⟩]
      running := if here then some s.executions.length else s.running }
  | _ => none

/-- The next step of call `i`; `_running_tasks` forgets the task when `execute` returns,
whichever call had registered it. -/
def proceed (cfg : Config) (i : Nat) (choice : Choice ν) (s : State ν) : Option (State ν) :=
  match s.executions[i]? with
  | none => none
  | some x =>
    (x.next cfg s.store choice).map fun (x', e) =>
      { s with
        store := e.store
        executions := s.executions.set i x'
        running := if x.here && x.attached && !x'.attached then none else s.running
        snapshots := s.snapshots ++ e.row.toList }

/-- What `_rerun_node` waits for: the task is registered, or a finalisation is not done. -/
def busy (s : State ν) : Bool :=
  s.running.isSome || s.executions.any fun x => x.here && x.pc.shielded

/-- The status of the record; `none` where it is missing or no status. -/
def status (cfg : Config) (s : Store ν) : Option TaskStatus :=
  TaskStatus.ofField (field s cfg.taskId "status")

/-- The next step of another coroutine.  What a cancelled coroutine makes of
`task.cancel()` is a choice at the call of `execute`. -/
def Control.next (cfg : Config) (s : State ν) : Control → Option (Control × Store ν)
  | .cancelRead force =>
    match status cfg s.store with
    | some status => some (if status.isTerminal then .ended else .requestRead force, s.store)
    | none => some (.ended, s.store)
  | .requestRead force =>
    some (if (getTask cfg.taskId s.store).isSome then .requestWrite force else .ended, s.store)
  | .requestWrite force =>
    match updateTask cfg [("cancel_requested", .bool true)] s.store with
    | (.ok, store) => some (if force then .forceCancel else .transitionRead, store)
    | (_, store) => some (.ended, store)
  | .forceCancel => some (if s.running.isSome then .ended else .transitionRead, s.store)
  | .transitionRead =>
    match status cfg s.store with
    | some status =>
      some (if status.allowedTransitions.contains .cancelled then .transitionWrite else .ended,
        s.store)
    | none => some (.ended, s.store)
  | .transitionWrite =>
    some (.ended, (updateTask cfg [("status", .str TaskStatus.cancelled.value)] s.store).2)
  | .drain => if busy s then none else some (.reopen, s.store)
  | .invalidate =>
    some (.rerun, (updateTask cfg [("exempt_resources_snapshot", .null)] s.store).2)
  | .reopen | .rerun | .ended => none

def Control.fails : Control → Option Control
  | .invalidate => some .rerun
  | .ended => none
  | _ => some .ended

def reopenTask (cfg : Config) (executionId initialStatus : String) (expiry : Option Int)
    (s : Store ν) : TaskStore.ReopenReply ν × Store ν :=
  taskReopen cfg.storage cfg.taskId executionId initialStatus (expiry.getD (-1)) s

def step (cfg : Config) (s : State ν) : Event ν → Option (State ν)
  | .execute here timed => begin cfg here timed s
  | .proceed i choice => proceed cfg i choice s
  | .cancel => some { s with controls := s.controls ++ [.cancelRead false] }
  | .terminate => some { s with controls := s.controls ++ [.cancelRead true] }
  | .rerun => some { s with controls := s.controls ++ [.drain] }
  | .control j =>
    match s.controls[j]? with
    | some .rerun => begin cfg true false { s with controls := s.controls.set j .ended }
    | some c =>
      (c.next cfg s).map fun (c', store) =>
        { s with store := store, controls := s.controls.set j c' }
    | none => none
  | .controlFails j =>
    (s.controls[j]?.bind Control.fails).map fun c => { s with controls := s.controls.set j c }
  | .deadline j =>
    -- five seconds are over, whether the task is still busy or not
    match s.controls[j]? with
    | some .drain => some { s with controls := s.controls.set j .reopen }
    | _ => none
  | .reopenNode j executionId =>
    match s.controls[j]? with
    | some .reopen =>
      match reopenTask cfg executionId "pending" none s.store with
      | (.reopened _ _, store) =>
        some { s with
          store := store
          controls := s.controls.set j
            (if cfg.dependencyGovernor then .invalidate else .rerun) }
      | (_, store) => some { s with store := store, controls := s.controls.set j .ended }
    | _ => none
  | .reopenTask executionId initialStatus expiry =>
    some { s with store := (reopenTask cfg executionId initialStatus expiry s.store).2 }

/-- What is left of the call writes no record any more, and the rows it may still write
carry an id it has captured already. -/
def Pc.fenced : Pc ν → Bool
  | .finished => true
  | .hook shielded => shielded
  | .writeSnapshot shielded _ => shielded
  | .readSnapshot shielded request => shielded && truthy (some request.executionId)
  | _ => false

/-- A reopening that meets a terminal record. -/
def reopens (cfg : Config) (s : State ν) : Event ν → Bool
  | .reopenNode _ _ | .reopenTask _ _ _ =>
    TaskStore.isTerminal cfg.storage (Json.orEmpty (field s.store cfg.taskId "status"))
  | _ => false

/-- A new generation begins only when every call for the old one is fenced. -/
def Drained (cfg : Config) (s : State ν) (e : Event ν) : Prop :=
  reopens cfg s e = true → ∀ x ∈ s.executions, x.pc.fenced = true

instance (cfg : Config) (s : State ν) (e : Event ν) : Decidable (Drained cfg s e) :=
  inferInstanceAs (Decidable (_ → _))

end

end Orditect.Executor
