import Orditect.Orchestrator.Submit
/-!
# The lifecycle of one task

Every path that writes the status of a task: `submit`, `execute` with any outcome,
`lifecycle.cancel`, `terminate` and the reruns of `RecoveryService`, while time passes and
the record may expire.  `TaskStateMachine` says which changes of the status are allowed, but
only `transition_to` asks it, in a call apart from its write; the store is told not to
validate.
-/

namespace Orditect.Orchestrator.Lifecycle

open Executor Support.LuaJson
open TaskStore (Store getTask field tick)

/-- Who calls `execute`: a client, the call `index` of `submit`, or the rerun `index`. -/
inductive Starter where
  | client (here timed : Bool)
  | submission (index : Nat)
  | rerun (index : Nat)

/-- `startMissing`: `execute` is called when the record is gone, or names no execution. -/
inductive Event (ν : Type) where
  | act (event : Orchestrator.Event ν)
  | startMissing (starter : Starter)
  | advance (ms : Nat)

/-- A change of the status that keeps the execution id is one of the state machine. -/
def Lawful {ν : Type} (cfg : Config) (s s' : Store ν) : Prop :=
  ∀ old new, field s cfg.taskId "status" = some old → field s' cfg.taskId "status" = some new →
    new ≠ old → field s' cfg.taskId "execution_id" = field s cfg.taskId "execution_id" →
    ∃ a b : TaskStatus, old = .str a.value ∧ new = .str b.value ∧ b ∈ a.allowedTransitions

/-- `st` is the status of the record, `none` where there is no record. -/
def Tracks {ν : Type} (cfg : Config) (s : Store ν) : Option TaskStatus → Prop
  | none => getTask cfg.taskId s = none
  | some w => field s cfg.taskId "status" = some (.str w.value)

/-- The execution may still write `succeeded` or `failed`, and not `running` before. -/
def deciding {ν : Type} : Pc ν → Bool
  | .readSnapshot _ request => !request.terminal
  | .writeSnapshot _ row => !row.terminal
  | .body | .checkCancelAfter _ | .settleCancelled | .writeSucceeded _ | .finalizeFailure _ _
  | .finalizeFailed _ => true
  | _ => false

/-- No call of `submit` has found the task pending without having written `queued`. -/
def noneQueueing {ν : Type} (s : State ν) : Bool :=
  s.submissions.all fun y => y.pc != .transitionWrite

def register {ν : Type} (here timed : Bool) (s : Executor.State ν) : Executor.State ν :=
  { s with
    executions := s.executions ++ [⟨"", here, timed, true, .checkCancel⟩]
    running := if here then some s.executions.length else s.running }

def startMissing {ν : Type} (s : State ν) : Starter → Option (State ν)
  | .client here timed => some { s with base := register here timed s.base }
  | .submission i =>
    match s.submissions[i]? with
    | some x =>
      if x.pc = .createTask then
        some { s.move i x .ended with base := register true x.timed s.base }
      else none
    | none => none
  | .rerun j =>
    match s.base.controls[j]? with
    | some .rerun =>
      some { s with
        base := register true false { s.base with controls := s.base.controls.set j .ended } }
    | _ => none

section

variable {ν : Type} [DecidableEq ν] [LuaNumber ν]

def step (cfg : Config) (s : State ν) : Event ν → Option (State ν)
  -- only a rerun reopens the task
  | .act (.other (.reopenTask _ _ _)) => none
  | .act e => Orchestrator.step cfg s e
  | .startMissing starter =>
    if (generation cfg s.base.store).isSome then none else startMissing s starter
  | .advance ms => some { s with base := { s.base with store := tick ms s.base.store } }

/-- The execution fails before it has written `running`: no slot is granted, the exemptions
cannot be read, or the write itself does not reach the store. -/
def failsEarly (cfg : Config) (s : Store ν) : Pc ν → Choice ν → Bool
  | .acquire, .raised _ => true
  | .writeRunning, .unavailable _ => true
  | .readExemption, .proceed =>
    match field s cfg.taskId "exempt_resources_snapshot" with
    | none | some .null => false
    | some snapshot => (exempts cfg.resource snapshot).isNone
  | _, _ => false

end

end Orditect.Orchestrator.Lifecycle
