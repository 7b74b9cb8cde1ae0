import Orditect.Executor.System
import Orditect.Snapshot.Memory
/-!
# One execution and those who cancel it

One call of `execute` with its hooks and its snapshots, any number of calls of
`lifecycle.cancel` and `_terminate_single` with what they return, and any number of
cancellations of the coroutine of `execute`.  `task.cancel()` is delivered at the `await` at
which the coroutine stands; the operation it awaits may have taken effect by then, and the body
or a hook may catch what is delivered and go on.
-/

namespace Orditect.Executor.Session

open Snapshot Support.LuaJson
open TaskStore (Store getTask field tick)

inductive Hook where
  | onSuccess
  | onFailure
  | onCancel
  deriving DecidableEq

/-- Where a call of `lifecycle.cancel` or, with `force`, of `_terminate_single` stands. -/
inductive Handle where
  | read (force : Bool)
  | requestRead (force : Bool)
  | requestWrite (force : Bool)
  | forceCancel
  | transitionRead (force : Bool)
  | transitionWrite (force : Bool)
  | confirm (force : Bool)
  | returned (force ok : Bool)
  | raised
  deriving DecidableEq

def Hook.outcome : Hook → TaskStatus
  | .onSuccess => .succeeded
  | .onFailure => .failed
  | .onCancel => .cancelled

/-- `cancelling`: `task.cancel()` was called and the coroutine has not been resumed since. -/
structure State (ν : Type) where
  store : Store ν
  snapshots : Memory Nat ν
  execution : Option (Execution ν)
  cancelling : Bool
  hooks : List Hook
  handles : List Handle

/-- `unstarted`: the coroutine is cancelled before its first turn.  `swallow`: the body or a hook
catches the `CancelledError`. -/
inductive Event (ν : Type) where
  | execute (here timed : Bool)
  | unstarted
  | proceed (choice : Choice ν)
  | cancelCoroutine
  | interrupt (done : Option (Choice ν))
  | swallow
  | cancel
  | terminate
  | handle (index : Nat)
  | handleFails (index : Nat)
  | advance (ms : Nat)
  | evict

def start {ν : Type} (store : Store ν) (snapshots : Memory Nat ν) : State ν :=
  ⟨store, snapshots, none, false, [], []⟩

section

variable {ν : Type} [DecidableEq ν] [LuaNumber ν]

/-! ## Snapshots and hooks -/

/-- `TaskSnapshot(…)` of the sink; `none` where the model rejects a value. -/
def taskSnapshot (cfg : Config) (now : Nat) (row : SnapshotRow ν) : Option (TaskSnapshot Nat ν) :=
  let snapshot (executionId : String) (parentTaskId : Option String) : TaskSnapshot Nat ν :=
    { taskId := cfg.taskId
      step := "execute"
      executionId := executionId
      parentTaskId := parentTaskId
      status := row.status.value
      error := row.error
      createdAt := now
      updatedAt := now }
  match row.executionId, row.parentTaskId with
  | .str executionId, none | .str executionId, some .null => some (snapshot executionId none)
  | .str executionId, some (.str parent) => some (snapshot executionId (some parent))
  | _, _ => none

/-- The write of the sink; what it raises is only logged. -/
def writeRow (cfg : Config) (now : Nat) (row : SnapshotRow ν) (m : Memory Nat ν) :
    Memory Nat ν :=
  match taskSnapshot cfg now row with
  | some snapshot =>
    if row.terminal then (m.saveTerminal snapshot).getD m else (m.save snapshot).getD m
  | none => m

def hookFor : TaskStatus → Hook
  | .succeeded => .onSuccess
  | .failed => .onFailure
  | _ => .onCancel

def hookAfter : Pc ν → Hook
  | .readSnapshot _ request => hookFor request.status
  | .writeSnapshot _ row => hookFor row.status
  | _ => .onCancel

def isHook : Pc ν → Bool
  | .hook _ => true
  | _ => false

/-! ## The execution -/

def State.record (cfg : Config) (e : Effect ν) (s : State ν) : State ν :=
  { s with
    store := e.store
    snapshots := e.row.elim s.snapshots fun row => writeRow cfg s.store.now row s.snapshots }

/-- The coroutine is resumed with the result of its `await`; a finaliser runs on its own. -/
def proceed (cfg : Config) (choice : Choice ν) (s : State ν) : Option (State ν) :=
  match s.execution, choice with
  | _, .interrupt => none
  | none, _ => none
  | some x, choice =>
    if s.cancelling && !x.pc.shielded then none
    else (x.next cfg s.store choice).map fun (x', e) =>
      { s.record cfg e with
        execution := some x'
        cancelling := s.cancelling && x'.attached
        hooks := if isHook e.pc then s.hooks ++ [hookAfter x.pc] else s.hooks }

/-- The coroutine is resumed with a `CancelledError`; with `done`, what it awaits has taken
effect before. -/
def interrupt (cfg : Config) (done : Option (Choice ν)) (s : State ν) : Option (State ν) :=
  match s.execution, done with
  | none, _ => none
  | some x, none =>
    if s.cancelling then
      (x.next cfg s.store .interrupt).map fun (x', _) =>
        { s with execution := some x', cancelling := false }
    else none
  | some x, some choice =>
    if s.cancelling && x.attached && !x.pc.shielded then
      (x.pc.next cfg x.timed s.store choice).bind fun e =>
        if e.pc.shielded || e.pc.isFinished then none
        else some { s.record cfg e with
          execution := some { x with pc := .captureGeneration }, cancelling := false }
    else none

/-- With a timeout the body runs in a task of its own, and `execute` raises whatever becomes of
it. -/
def swallows (x : Execution ν) : Bool :=
  match x.pc with
  | .body => !x.timed
  | .hook shielded => !shielded
  | _ => false

def swallow (s : State ν) : Option (State ν) :=
  match s.execution with
  | some x =>
    if s.cancelling && x.attached && swallows x then some { s with cancelling := false } else none
  | none => none

def running (s : State ν) : Bool :=
  match s.execution with
  | some x => x.here && x.attached
  | none => false

def finished (s : State ν) : Bool := s.execution.any fun x => x.pc.isFinished

/-! ## Cancellation -/

/-- The next step of a call, the store it leaves, and whether it cancels the coroutine. -/
def Handle.next (cfg : Config) (s : State ν) : Handle → Option (Handle × Store ν × Bool)
  | .read force =>
    match getTask cfg.taskId s.store, status cfg s.store with
    | none, _ => some (.returned force false, s.store, false)
    | some _, none => some (.raised, s.store, false)
    | some _, some w =>
      some (if w.isTerminal then .returned force false else .requestRead force, s.store, false)
  | .requestRead force =>
    match getTask cfg.taskId s.store with
    | none => some (.returned force false, s.store, false)
    | some _ => some (.requestWrite force, s.store, false)
  | .requestWrite force =>
    match updateTask cfg [("cancel_requested", .bool true)] s.store with
    | (.ok, store) => some (if force then .forceCancel else .transitionRead false, store, false)
    | (_, store) => some (.raised, store, false)
  | .forceCancel =>
    some (if running s then .returned true true else .transitionRead true, s.store, running s)
  | .transitionRead force =>
    match getTask cfg.taskId s.store, status cfg s.store with
    | none, _ => some (.returned force false, s.store, false)
    | some _, none => some (.raised, s.store, false)
    | some _, some w =>
      some (if w.allowedTransitions.contains .cancelled then .transitionWrite force
        else .confirm force, s.store, false)
  | .transitionWrite force =>
    match updateTask cfg [("status", .str TaskStatus.cancelled.value)] s.store with
    | (.ok, store) => some (.returned force true, store, false)
    | (.invalidTransfer, store) => some (.confirm force, store, false)
    | (_, store) => some (.raised, store, false)
  | .confirm force =>
    match getTask cfg.taskId s.store, status cfg s.store with
    | none, _ => some (.returned force false, s.store, false)
    | some _, none => some (.raised, s.store, false)
    | some _, some w => some (.returned force (w == .cancelled), s.store, false)
  | .returned _ _ | .raised => none

def Handle.fails : Handle → Option Handle
  | .returned _ _ | .raised => none
  | _ => some .raised

def step (cfg : Config) (s : State ν) : Event ν → Option (State ν)
  | .execute here timed =>
    match s.execution, field s.store cfg.taskId "execution_id" with
    | none, some (.str birth) =>
      some { s with execution := some ⟨birth, here, timed, true, .checkCancel⟩ }
    | _, _ => none
  | .unstarted =>
    match s.execution, field s.store cfg.taskId "execution_id" with
    | none, some (.str birth) =>
      some { s with execution := some ⟨birth, false, false, false, .finished⟩ }
    | _, _ => none
  | .proceed choice => proceed cfg choice s
  | .cancelCoroutine =>
    match s.execution with
    | some x => if x.attached then some { s with cancelling := true } else none
    | none => none
  | .interrupt done => interrupt cfg done s
  | .swallow => swallow s
  | .cancel => some { s with handles := s.handles ++ [.read false] }
  | .terminate => some { s with handles := s.handles ++ [.read true] }
  | .handle i =>
    (s.handles[i]?.bind (Handle.next cfg s)).map fun (h, store, cancels) =>
      { s with
        store := store
        handles := s.handles.set i h
        cancelling := s.cancelling || cancels }
  | .handleFails i =>
    (s.handles[i]?.bind Handle.fails).map fun h => { s with handles := s.handles.set i h }
  | .advance ms => some { s with store := tick ms s.store }
  | .evict =>
    some { s with store :=
      { s.store with records := Function.update s.store.records cfg.taskId none } }

end

end Orditect.Executor.Session
