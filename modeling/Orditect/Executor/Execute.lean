import Orditect.TaskStore.System
/-!
# The task executor

`TaskExecutor.execute` for one task, over the scripts of the task store.  A call is a
coroutine; its program counter stands before the next `await`, and between two of them
every other coroutine may act.  What the code does not decide (how the body ends, what a
query outside the task store answers, which calls fail, when a `CancelledError` is
delivered) is a choice of the environment.
-/

namespace Orditect.Executor

open Support.LuaJson
open TaskStore (Store UpdateReply taskUpdate field)

inductive TaskStatus where
  | pending
  | queued
  | running
  | succeeded
  | failed
  | cancelled
  deriving DecidableEq

namespace TaskStatus

def value : TaskStatus → String
  | .pending => "pending"
  | .queued => "queued"
  | .running => "running"
  | .succeeded => "succeeded"
  | .failed => "failed"
  | .cancelled => "cancelled"

/-- `TaskStatus(task["status"])`; `none` where it raises. -/
def ofField {ν : Type} : Option (Json ν) → Option TaskStatus
  | some (.str "pending") => some .pending
  | some (.str "queued") => some .queued
  | some (.str "running") => some .running
  | some (.str "succeeded") => some .succeeded
  | some (.str "failed") => some .failed
  | some (.str "cancelled") => some .cancelled
  | _ => none

def allowedTransitions : TaskStatus → List TaskStatus
  | .pending => [.queued, .cancelled]
  | .queued => [.running, .cancelled]
  | .running => [.succeeded, .failed, .cancelled]
  | .succeeded | .failed | .cancelled => []

def isTerminal : TaskStatus → Bool
  | .succeeded | .failed | .cancelled => true
  | .pending | .queued | .running => false

end TaskStatus

def defaultStorage : TaskStore.Config where
  terminalStatuses := ["succeeded", "failed", "cancelled"]
  transitions
    | "" => ["pending", "queued"]
    | "pending" => ["queued", "cancelled"]
    | "queued" => ["running", "cancelled"]
    | "running" => ["succeeded", "failed", "cancelled"]
    | _ => []
  defaultExpireTime := 604800

/-- One task and the executor that runs it.  `foreignError` is the text of an exception
that the interpreter or the store words, not the code. -/
structure Config where
  storage : TaskStore.Config
  taskId : String
  governor : Bool
  resource : String
  reuseWords : List String
  dependencyGovernor : Bool
  foreignError : String

structure SnapshotRow (ν : Type) where
  executionId : Json ν
  parentTaskId : Option (Json ν)
  status : TaskStatus
  terminal : Bool
  error : Option String

/-- The arguments of `_write_snapshot`; `execution_id=""` has it read off the record. -/
structure SnapshotRequest (ν : Type) where
  status : TaskStatus
  terminal : Bool
  error : Option String := none
  executionId : Json ν := .str ""

/-- Where a call of `execute` stands.  From `finalizeFailure` on, and wherever `shielded`
is set, the coroutine is one of `_shielded_finalize`. -/
inductive Pc (ν : Type) where
  | checkCancel
  | queryReuse
  | readReuse
  | readExemption
  | walkAncestors
  | acquire
  | writeResource
  | writeRunning
  | body
  | checkCancelAfter (result : Json ν)
  | settleCancelled
  | writeSucceeded (result : Json ν)
  | captureGeneration
  | finalizeFailure (error outcome : String)
  | finalizeSettle (error outcome : String)
  | finalizeFailed (error : String)
  | finalizeCancel (executionId : Json ν)
  | readSnapshot (shielded : Bool) (request : SnapshotRequest ν)
  | writeSnapshot (shielded : Bool) (row : SnapshotRow ν)
  | hook (shielded : Bool)
  | finished

inductive Choice (ν : Type) where
  | proceed
  | unavailable (error : String)
  | interrupt
  | latest (status : Option String)
  | inherited (granted : Bool)
  | returned (result : Json ν)
  | raised (error : String)
  | timedOut (error : String)

structure Effect (ν : Type) where
  pc : Pc ν
  store : Store ν
  row : Option (SnapshotRow ν) := none

section

variable {ν : Type} [DecidableEq ν] [LuaNumber ν]

def truthy : Option (Json ν) → Bool
  | none | some .null => false
  | some (.bool b) => b
  | some (.num n) => decide (n ≠ LuaNumber.ofNat 0)
  | some (.str s) => decide (s ≠ "")
  | some (.arr elems) => !elems.isEmpty
  | some (.obj fields) => !fields.isEmpty

def isCancelRequested (cfg : Config) (s : Store ν) : Bool :=
  truthy (field s cfg.taskId "cancel_requested")

/-- `resource_name in set(snapshot)`; `none` where it raises. -/
def exempts (resource : String) : Json ν → Option Bool
  | .arr elems =>
    if elems.any fun v => match v with | .arr _ | .obj _ => true | _ => false then none
    else some (elems.any fun v => match v with | .str s => s == resource | _ => false)
  | .obj fields => some (fields.any fun f => f.1 == resource)
  | .str s => some (s.toList.any fun c => c.toString == resource)
  | .null | .bool _ | .num _ => none

/-- `update_task(task_id, updates, validate_status_transfer=False)`. -/
def updateTask (cfg : Config) (updates : List (String × Json ν)) (s : Store ν) :
    UpdateReply × Store ν :=
  taskUpdate cfg.storage (fun k => updates.lookup k) (-1) cfg.taskId s

def updateError (cfg : Config) : UpdateReply → Option String
  | .ok => none
  | .notFound => some ("task_id not found: " ++ cfg.taskId)
  | .invalidTransfer => some ("invalid status transfer for task_id=" ++ cfg.taskId)
  | .raised => some cfg.foreignError

/-- `_update_terminal`: whether the write was accepted by the terminal protection, or the
exception it raises. -/
def updateTerminal (cfg : Config) (updates : List (String × Json ν)) (s : Store ν) :
    Except String Bool × Store ν :=
  match updateTask cfg updates s with
  | (.ok, s) => (.ok true, s)
  | (.invalidTransfer, s) => (.ok false, s)
  | (reply, s) => (.error ((updateError cfg reply).getD ""), s)

/-! ## The flow of `execute` -/

def failed (error : String) : Pc ν := .finalizeFailure error "failed_but_cancelled"

def afterReuse (cfg : Config) : Pc ν := if cfg.governor then .readExemption else .writeRunning

def afterCheck (cfg : Config) : Pc ν :=
  if cfg.reuseWords.isEmpty then afterReuse cfg else .queryReuse

def afterSnapshot (shielded terminal : Bool) : Pc ν := if terminal then .hook shielded else .body

def snapshotRow (cfg : Config) (request : SnapshotRequest ν) (s : Store ν) : SnapshotRow ν where
  executionId :=
    if truthy (some request.executionId) then request.executionId
    else (field s cfg.taskId "execution_id").getD (.str "")
  parentTaskId := field s cfg.taskId "parent_task_id"
  status := request.status
  terminal := request.terminal
  error := request.error

/-- The call at which `execute` stands, or the part of it a choice stands for. -/
def Pc.next (cfg : Config) (timed : Bool) (s : Store ν) : Pc ν → Choice ν → Option (Effect ν)
  | .checkCancel, .proceed =>
    some ⟨if isCancelRequested cfg s then .captureGeneration else afterCheck cfg, s, none⟩
  | .checkCancel, .unavailable _ => some ⟨afterCheck cfg, s, none⟩
  | .queryReuse, .latest status =>
    let reusable := match status with | some word => cfg.reuseWords.contains word | none => false
    some ⟨if reusable then .readReuse else afterReuse cfg, s, none⟩
  | .queryReuse, .unavailable _ => some ⟨afterReuse cfg, s, none⟩
  | .readReuse, .proceed =>
    some ⟨if (field s cfg.taskId "result").isSome then .finished else afterReuse cfg, s, none⟩
  | .readReuse, .unavailable _ => some ⟨afterReuse cfg, s, none⟩
  | .readExemption, .proceed =>
    match field s cfg.taskId "exempt_resources_snapshot" with
    | none | some .null => some ⟨.walkAncestors, s, none⟩
    | some snapshot =>
      match exempts cfg.resource snapshot with
      | some true => some ⟨.writeRunning, s, none⟩
      | some false => some ⟨.acquire, s, none⟩
      | none => some ⟨failed cfg.foreignError, s, none⟩
  | .readExemption, .unavailable _ => some ⟨.walkAncestors, s, none⟩
  | .walkAncestors, .inherited granted =>
    some ⟨if granted then .writeRunning else .acquire, s, none⟩
  | .acquire, .proceed => some ⟨.writeResource, s, none⟩
  | .acquire, .raised error => some ⟨failed error, s, none⟩
  | .writeResource, .proceed =>
    -- a failure of the ledger write is only logged
    some ⟨.writeRunning, (updateTask cfg [("resource", .str cfg.resource)] s).2, none⟩
  | .writeResource, .unavailable _ => some ⟨.writeRunning, s, none⟩
  | .writeRunning, .proceed =>
    let (reply, s) := updateTask cfg [("status", .str TaskStatus.running.value)] s
    match updateError cfg reply with
    | none => some ⟨.readSnapshot false { status := .running, terminal := false }, s, none⟩
    | some error => some ⟨failed error, s, none⟩
  | .writeRunning, .unavailable error => some ⟨failed error, s, none⟩
  | .body, .returned result => some ⟨.checkCancelAfter result, s, none⟩
  | .body, .raised error => some ⟨failed error, s, none⟩
  | .body, .timedOut error =>
    if timed then some ⟨.finalizeFailure error "timeout_but_cancelled", s, none⟩ else none
  | .checkCancelAfter result, .proceed =>
    some ⟨if isCancelRequested cfg s then .settleCancelled else .writeSucceeded result, s, none⟩
  | .checkCancelAfter result, .unavailable _ => some ⟨.writeSucceeded result, s, none⟩
  | .settleCancelled, .proceed =>
    match updateTerminal cfg [("status", .str TaskStatus.cancelled.value),
        ("cancel_outcome", .str "succeeded_but_cancelled")] s with
    | (.ok _, s) => some ⟨.hook false, s, none⟩
    | (.error error, s) => some ⟨failed error, s, none⟩
  | .settleCancelled, .unavailable error => some ⟨failed error, s, none⟩
  | .writeSucceeded result, .proceed =>
    match updateTerminal cfg [("status", .str TaskStatus.succeeded.value), ("result", result),
        ("progress", .num (LuaNumber.ofNat 1))] s with
    | (.ok true, s) =>
      some ⟨.readSnapshot false { status := .succeeded, terminal := true }, s, none⟩
    | (.ok false, s) => some ⟨.hook false, s, none⟩
    | (.error error, s) => some ⟨failed error, s, none⟩
  | .writeSucceeded _, .unavailable error => some ⟨failed error, s, none⟩
  | .captureGeneration, .proceed =>
    some ⟨.finalizeCancel ((field s cfg.taskId "execution_id").getD (.str "")), s, none⟩
  | .captureGeneration, .unavailable _ => some ⟨.finalizeCancel (.str ""), s, none⟩
  | .finalizeFailure error outcome, .proceed =>
    some ⟨if isCancelRequested cfg s then .finalizeSettle error outcome
      else .finalizeFailed error, s, none⟩
  | .finalizeFailure error _, .unavailable _ => some ⟨.finalizeFailed error, s, none⟩
  | .finalizeSettle error outcome, .proceed =>
    match updateTerminal cfg [("status", .str TaskStatus.cancelled.value),
        ("cancel_outcome", .str outcome)] s with
    | (.ok _, s) =>
      some ⟨.readSnapshot true { status := .cancelled, terminal := true, error := some error },
        s, none⟩
    | (.error _, s) => some ⟨.finished, s, none⟩
  | .finalizeSettle _ _, .unavailable _ => some ⟨.finished, s, none⟩
  | .finalizeFailed error, .proceed =>
    match updateTerminal cfg [("status", .str TaskStatus.failed.value), ("error", .str error)]
        s with
    | (.ok true, s) =>
      some ⟨.readSnapshot true { status := .failed, terminal := true, error := some error },
        s, none⟩
    | (.ok false, s) => some ⟨.hook true, s, none⟩
    | (.error _, s) => some ⟨.finished, s, none⟩
  | .finalizeFailed _, .unavailable _ => some ⟨.finished, s, none⟩
  | .finalizeCancel executionId, .proceed =>
    match updateTerminal cfg [("status", .str TaskStatus.cancelled.value)] s with
    | (.ok _, s) =>
      some ⟨.readSnapshot true
        { status := .cancelled, terminal := true, executionId := executionId }, s, none⟩
    | (.error _, s) => some ⟨.finished, s, none⟩
  | .finalizeCancel _, .unavailable _ => some ⟨.finished, s, none⟩
  | .readSnapshot shielded request, .proceed =>
    some ⟨.writeSnapshot shielded (snapshotRow cfg request s), s, none⟩
  | .readSnapshot shielded request, .unavailable _ =>
    some ⟨afterSnapshot shielded request.terminal, s, none⟩
  | .writeSnapshot shielded row, .proceed =>
    some ⟨afterSnapshot shielded row.terminal, s, some row⟩
  | .writeSnapshot shielded row, .unavailable _ =>
    some ⟨afterSnapshot shielded row.terminal, s, none⟩
  | .hook _, .proceed => some ⟨.finished, s, none⟩
  | _, _ => none

end

/-- The rest is left to a shielded finalisation, which a cancellation does not reach. -/
def Pc.shielded {ν : Type} : Pc ν → Bool
  | .finalizeFailure _ _ | .finalizeSettle _ _ | .finalizeFailed _ | .finalizeCancel _ => true
  | .readSnapshot shielded _ | .writeSnapshot shielded _ | .hook shielded => shielded
  | _ => false

/-- Where a `CancelledError` leads that is delivered to `execute`.  The handler itself is
not shielded before it has captured the generation. -/
def Pc.interrupted {ν : Type} (pc : Pc ν) : Pc ν :=
  match pc with
  | .captureGeneration | .finished => .finished
  | pc => if pc.shielded then pc else .captureGeneration

end Orditect.Executor
