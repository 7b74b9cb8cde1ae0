import Orditect.Executor.System
import Orditect.Snapshot.Memory
/-!
# The recovery service

`resume` and `rerun` over the snapshot tree of a root: one decision for each task of the
tree, then `_dispatch`, which reopens the tasks to rerun one after the other and starts
`execute` for each.  The calls of `execute` it has started run in the background, interleaved
with it at every `await`; nothing else acts, and no body writes a record of the tree itself.  The
plan is made at one instant.
-/

namespace Orditect.Recovery

open Support.LuaJson
open Executor (Choice Execution Pc)
open Snapshot (Memory TaskSnapshot)
open TaskStore (Store field getTask tick)

inductive ReuseDecision where
  | reuse
  | rerun
  deriving DecidableEq

/-- What the service is built with; the executor's configuration is for any task. -/
structure Service where
  executor : Executor.Config
  reuseWords : List String

def Service.forTask (service : Service) (taskId : String) : Executor.Config :=
  { service.executor with taskId := taskId }

inductive Request where
  | resume
  | rerun (scope : List String)

section

variable {ν : Type} [DecidableEq ν] [LuaNumber ν]

/-! ## The plan -/

def decide (service : Service) (snapshots : Memory Nat ν) (store : Store ν) (taskId : String) :
    ReuseDecision :=
  match snapshots.get store.now taskId "execute" none with
  | some snap =>
    if service.reuseWords.contains snap.status &&
        (getTask taskId store).any fun rec => (rec "result").isSome then .reuse
    else .rerun
  | none => .rerun

def Request.decide (request : Request) (service : Service) (snapshots : Memory Nat ν)
    (store : Store ν)
    (taskId : String) : ReuseDecision :=
  match request with
  | .resume => Recovery.decide service snapshots store taskId
  | .rerun scope =>
    if taskId ∈ scope then .rerun else Recovery.decide service snapshots store taskId

def treeTaskIds (snapshots : Memory Nat ν) (now : Nat) (rootTaskId : String) : List String :=
  (snapshots.getTree now rootTaskId none true).map TaskSnapshot.taskId

def makePlan (decision : String → ReuseDecision) (treeIds : List String) :
    String → Option ReuseDecision :=
  treeIds.foldl (fun plan tid => Function.update plan tid (some (decision tid))) fun _ => none

/-! ## The dispatch -/

inductive Stage where
  | drain
  | reopen
  | invalidate
  | taskFactory
  deriving DecidableEq

/-- A task of the event loop that `create_task(execute(…))` has made; it has not begun while
there is no execution. -/
structure Background (ν : Type) where
  taskId : String
  execution : Option (Execution ν)

/-- `treeIds` are the ids the loop of `_dispatch` has before it, with the one it is at; `running`
are the entries of `_running_tasks`; `opened` and `started` list the tasks for which a
generation was opened and `execute` was started. -/
structure State (ν : Type) where
  store : Store ν
  treeIds : List String
  stage : Option Stage
  background : List (Background ν)
  running : String → Bool
  opened : List String
  started : List String

inductive Event (ν : Type) where
  | next
  | drained
  | deadline
  | reopen (executionId : String)
  | invalidate
  | invalidateFails
  | taskFactory
  | begin (index : Nat)
  | proceed (index : Nat) (choice : Choice ν)
  | advance (ms : Nat)

def start (treeIds : List String) (store : Store ν) : State ν :=
  ⟨store, treeIds, none, [], fun _ => false, [], []⟩

def State.returned (s : State ν) : Bool := s.treeIds.isEmpty && s.stage.isNone

def busy (taskId : String) (s : State ν) : Bool :=
  s.running taskId || s.background.any fun b => b.execution.any fun x => x.pc.shielded

def begin (i : Nat) (s : State ν) : Option (State ν) :=
  match s.background[i]? with
  | some ⟨taskId, none⟩ =>
    match field s.store taskId "execution_id" with
    | some (.str birth) =>
      some { s with
        background := s.background.set i ⟨taskId, some ⟨birth, true, false, true, .checkCancel⟩⟩
        running := Function.update s.running taskId true }
    | _ => none
  | _ => none

def proceed (service : Service) (i : Nat) (choice : Choice ν) (s : State ν) : Option (State ν) :=
  match s.background[i]? with
  | some ⟨taskId, some x⟩ =>
    (x.next (service.forTask taskId) s.store choice).map fun (x', e) =>
      { s with
        store := e.store
        background := s.background.set i ⟨taskId, some x'⟩
        running := if x.attached && !x'.attached then Function.update s.running taskId false
          else s.running }
  | _ => none

def State.done (s : State ν) : State ν := { s with treeIds := s.treeIds.tail, stage := none }

def dispatch (service : Service) (plan : String → Option ReuseDecision) (taskId : String)
    (s : State ν) : Option Stage → Event ν → Option (State ν)
  | none, .next =>
    if plan taskId = some .rerun then some { s with stage := some .drain } else some s.done
  | some .drain, .drained =>
    if busy taskId s then none else some { s with stage := some .reopen }
  | some .drain, .deadline => some { s with stage := some .reopen }
  | some .reopen, .reopen executionId =>
    match Executor.reopenTask (service.forTask taskId) executionId "pending" none s.store with
    | (.reopened _ _, store) =>
      some { s with
        store := store
        stage := some (if service.executor.dependencyGovernor then .invalidate
          else .taskFactory)
        opened := s.opened ++ [taskId] }
    | (_, store) => some { s.done with store := store }
  | some .invalidate, .invalidate =>
    some { s with
      store := (Executor.updateTask (service.forTask taskId)
        [("exempt_resources_snapshot", .null)] s.store).2
      stage := some .taskFactory }
  | some .invalidate, .invalidateFails => some { s with stage := some .taskFactory }
  | some .taskFactory, .taskFactory =>
    some { s.done with
      background := s.background ++ [⟨taskId, none⟩]
      started := s.started ++ [taskId] }
  | _, _ => none

def step (service : Service) (plan : String → Option ReuseDecision) (s : State ν) :
    Event ν → Option (State ν)
  | .begin i => begin i s
  | .proceed i choice => proceed service i choice s
  | .advance ms => some { s with store := tick ms s.store }
  | event =>
    match s.treeIds with
    | taskId :: _ => dispatch service plan taskId s s.stage event
    | [] => none

end

end Orditect.Recovery
