import Orditect.Executor.System
/-!
# Submitting a task

Any number of calls of `TaskOrchestrator.submit` with one explicit task id, next to the
executions they start, cancellations, reruns and reopenings of that task.  A call of
`submit` is a coroutine of separate storage calls; every other coroutine may act between
two of them.
-/

namespace Orditect.Orchestrator

open Executor Support.LuaJson
open TaskStore (Store InitReply taskInit initialData getTask field)

inductive SubmitPc where
  | readExisting
  | initializeTask (ifNotExists : Bool)
  | writeMetadata
  | transitionRead
  | transitionWrite
  | createTask
  | ended
  deriving DecidableEq

/-- A call of `submit`; `parentTaskId` is the explicit parent or the one of the context. -/
structure Submission (ν : Type) where
  metadata : Option (Json ν)
  parentTaskId : Option String
  timed : Bool
  pc : SubmitPc

/-- `starts` lists the execution ids the record had when `submit` started an execution;
`issued` are the ids generated so far. -/
structure State (ν : Type) where
  base : Executor.State ν
  submissions : List (Submission ν)
  starts : List String
  issued : List String

inductive Event (ν : Type) where
  | submit (ifNotExists : Bool) (metadata : Option (Json ν)) (parentTaskId : Option String)
      (timed : Bool)
  | initializeTask (index : Nat) (timestamp executionId : String)
  | proceed (index : Nat)
  | fails (index : Nat)
  | other (event : Executor.Event ν)

def generation {ν : Type} (cfg : Config) (s : Store ν) : Option String :=
  match field s cfg.taskId "execution_id" with
  | some (.str executionId) => some executionId
  | _ => none

def start {ν : Type} (cfg : Config) (store : Store ν) : State ν :=
  ⟨Executor.start store, [], [], (generation cfg store).toList⟩

section

variable {ν : Type} [DecidableEq ν] [LuaNumber ν]

def Submission.created (x : Submission ν) : SubmitPc :=
  if truthy x.metadata then .writeMetadata else .transitionRead

def Submission.afterInit (x : Submission ν) : InitReply → SubmitPc
  | .written => x.created
  | .skipped | .raised => .ended

def initializeTask (cfg : Config) (ifNotExists : Bool) (parentTaskId : Option String)
    (timestamp executionId : String) (s : Store ν) : InitReply × Store ν :=
  taskInit (initialData timestamp TaskStatus.pending.value parentTaskId)
    cfg.storage.defaultExpireTime cfg.taskId ifNotExists TaskStatus.pending.value
    (parentTaskId.getD "") executionId s

def Submission.next (cfg : Config) (s : Store ν) (x : Submission ν) :
    Option (SubmitPc × Store ν) :=
  match x.pc with
  | .readExisting =>
    match status cfg s with
    | some .pending => some (x.created, s)
    | _ => some (.initializeTask false, s)
  | .writeMetadata =>
    match updateTask cfg [("metadata", x.metadata.getD .null)] s with
    | (.ok, s) => some (.transitionRead, s)
    | (_, s) => some (.ended, s)
  | .transitionRead =>
    match status cfg s with
    | some from_ =>
      some (if from_.allowedTransitions.contains .queued then .transitionWrite else .ended, s)
    | none => some (.ended, s)
  | .transitionWrite =>
    match updateTask cfg [("status", .str TaskStatus.queued.value)] s with
    | (.ok, s) => some (.createTask, s)
    | (_, s) => some (.ended, s)
  | .initializeTask _ | .createTask | .ended => none

def State.move (s : State ν) (index : Nat) (x : Submission ν) (pc : SubmitPc) : State ν :=
  { s with submissions := s.submissions.set index { x with pc := pc } }

def State.issue (s : State ν) (executionId : String) : Option (State ν) :=
  if executionId ∈ s.issued then none else some { s with issued := executionId :: s.issued }

def step (cfg : Config) (s : State ν) : Event ν → Option (State ν)
  | .submit ifNotExists metadata parentTaskId timed =>
    let pc := if ifNotExists then .initializeTask true else .readExisting
    some { s with submissions := s.submissions ++ [⟨metadata, parentTaskId, timed, pc⟩] }
  | .initializeTask i timestamp executionId =>
    match s.submissions[i]? with
    | some x =>
      match x.pc with
      | .initializeTask ifNotExists =>
        let (reply, store) := initializeTask cfg ifNotExists x.parentTaskId timestamp
          executionId s.base.store
        ({ s with base := { s.base with store := store } }.move i x
          (x.afterInit reply)).issue executionId
      | _ => none
    | none => none
  | .proceed i =>
    match s.submissions[i]? with
    | some x =>
      match x.pc with
      | .createTask =>
        (begin cfg true x.timed s.base).map fun base =>
          { s.move i x .ended with
            base := base
            starts := s.starts ++ (generation cfg s.base.store).toList }
      | _ =>
        (x.next cfg s.base.store).map fun (pc, store) =>
          { s with base := { s.base with store := store } }.move i x pc
    | none => none
  | .fails i => (s.submissions[i]?).map fun x => s.move i x .ended
  | .other e =>
    match e.executionId with
    | some executionId =>
      (Executor.step cfg s.base e).bind fun base =>
        { s with base := base }.issue executionId
    | none => (Executor.step cfg s.base e).map fun base => { s with base := base }

def SubmitPc.critical : SubmitPc → Bool
  | .transitionWrite | .createTask => true
  | _ => false

end

end Orditect.Orchestrator
