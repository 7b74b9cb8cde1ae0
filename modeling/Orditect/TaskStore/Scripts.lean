import Orditect.Support.LuaJson
import Orditect.Support.SortedSet
/-!
# Task records and their indexes

`task_init.lua`, `task_update.lua` and `task_reopen.lua` over the hot records of
`TaskRedisDB`, the status index (one sorted set for each status word, member = task,
score = expiry instant of its record) and the lineage index of the same shape.  The
key families are separate maps.  A script that raises keeps what it wrote before.
-/

namespace Orditect.TaskStore

open Support.Expiring Support.SortedSet Support.LuaJson

variable {ν : Type} [DecidableEq ν] [LuaNumber ν]

structure Store (ν : Type) where
  now : Nat
  records : String → Cell (Fields ν)
  statusIndex : String → Cell (ZSet String)
  childrenIndex : String → Cell (ZSet String)

/-- What an instance of `TaskRedisDB` is bound to. -/
structure Config where
  terminalStatuses : List String
  transitions : String → List String
  defaultExpireTime : Int

/-- The built-in transfer table of `task/status.py`. -/
def allowedTransitions : String → List String
  | "" => ["pending", "in_progress"]
  | "pending" => ["in_progress", "cancelled", "failed"]
  | "in_progress" => ["completed", "failed", "cancelled"]
  | _ => []

/-- `is_terminal[s]`; the keys of the table are strings. -/
def isTerminal (cfg : Config) : Json ν → Bool
  | .str s => cfg.terminalStatuses.contains s
  | _ => false

/-- `SET key value EX expiry`, for a positive `expiry`. -/
def setRecord (taskId : String) (fields : Fields ν) (expiry : Nat) (s : Store ν) : Store ν :=
  { s with records := Function.update s.records taskId (Cell.setEx s.now expiry fields.recode) }

/-- `ZADD` with the expiry instant as score, then raise the key's TTL to `expiry`. -/
def lease (now expiry : Nat) (taskId : String) (index : Cell (ZSet String)) : Cell (ZSet String) :=
  (put taskId (now + expiry * 1000) index).bump now expiry

def leaseStatus (status taskId : String) (expiry : Nat) (s : Store ν) : Store ν :=
  { s with
    statusIndex := Function.update s.statusIndex status
      (lease s.now expiry taskId (s.statusIndex status)) }

def leaseChild (parentId taskId : String) (expiry : Nat) (s : Store ν) : Store ν :=
  { s with
    childrenIndex := Function.update s.childrenIndex parentId
      (lease s.now expiry taskId (s.childrenIndex parentId)) }

def dropStatus (status taskId : String) (s : Store ν) : Store ν :=
  { s with
    statusIndex := Function.update s.statusIndex status (del taskId (s.statusIndex status)) }

/-! ## Initialisation -/

inductive InitReply where
  | skipped
  | written
  | raised
  deriving DecidableEq, Repr

/-- `task_init.lua`; an empty `status` or `parentId` has no index entry. -/
def taskInit (data : Fields ν) (expiry : Int) (taskId : String) (ifNotExists : Bool)
    (status parentId executionId : String) (s : Store ν) : InitReply × Store ν :=
  if ifNotExists && (s.records taskId).isSome then (.skipped, s)
  else if expiry ≤ 0 then (.raised, s)
  else
    let data := data.set "execution_id" (.str executionId)
    let s := setRecord taskId data expiry.toNat s
    let s := if status ≠ "" then leaseStatus status taskId expiry.toNat s else s
    let s := if parentId ≠ "" then leaseChild parentId taskId expiry.toNat s else s
    (.written, s)

def initialData (timestamp initialStatus : String) (parentTaskId : Option String) : Fields ν :=
  let data : Fields ν := fun _ => none
  let data := ((data.set "reason" (.str "")).set "payload" (.obj [])).set "cancel_requested"
    (.bool false)
  let data := (data.set "timestamp" (.str timestamp)).set "status" (.str initialStatus)
  match parentTaskId with
  | some parent => data.set "parent_task_id" (.str parent)
  | none => data

/-! ## Updates -/

inductive UpdateReply where
  | ok
  | notFound
  | invalidTransfer
  | raised
  deriving DecidableEq, Repr

/-- The expiry a script goes by: a negative one keeps the remaining TTL, or falls back
when there is none. -/
def effectiveExpiry (cfg : Config) (expiry ttl : Int) : Int :=
  if expiry < 0 then (if 0 < ttl then ttl else cfg.defaultExpireTime) else expiry

/-- The tail of `task_update.lua`: migrate the status index. -/
def migrateStatus (oldStatus newStatus : Json ν) (taskId : String) (expiry : Nat) (s : Store ν) :
    UpdateReply × Store ν :=
  let leave := !oldStatus.luaEq newStatus && !oldStatus.luaEq (.str "")
  match leave, oldStatus.concat with
  | true, none => (.raised, s)
  | leave, oldKey =>
    let s := if leave then dropStatus (oldKey.getD "") taskId s else s
    if newStatus.luaEq (.str "") then (.ok, s)
    else
      match newStatus.concat with
      | none => (.raised, s)
      | some newKey => (.ok, leaseStatus newKey taskId expiry s)

def taskUpdate (cfg : Config) (updates : Fields ν) (expiry : Int) (taskId : String) (s : Store ν) :
    UpdateReply × Store ν :=
  match (s.records taskId).get with
  | none => (.notFound, s)
  | some current =>
    let expiry := effectiveExpiry cfg expiry ((s.records taskId).ttl s.now)
    let oldStatus := Json.orEmpty (current "status")
    let newStatus := (updates "status").getD oldStatus
    if !oldStatus.luaEq newStatus && isTerminal cfg oldStatus then (.invalidTransfer, s)
    else if expiry ≤ 0 then (.raised, s)
    else
      migrateStatus oldStatus newStatus taskId expiry.toNat
        (setRecord taskId (updates.merge current) expiry.toNat s)

/-! ## Reopening -/

inductive ReopenReply (ν : Type) where
  | reopened (executionId : String) (previousStatus : Json ν)
  | notFound
  | notTerminal (currentStatus : Json ν)
  | raised

/-- The trace of old generations with `oldEid` added, capped at 50. -/
def tracePrevious (prevIds oldEid : Option (Json ν)) : Json ν :=
  let ids : Json ν := match prevIds with
    | some (.arr ids) => .arr ids
    | some (.obj ids) => .obj ids
    | _ => .arr []
  match oldEid with
  | none => ids
  | some (.str "") => ids
  | some eid =>
    match ids with
    | .obj (f :: fs) => .obj (f :: fs ++ [("1", eid)])
    | .arr elems =>
      let elems := elems ++ [eid]
      .arr (if 50 < elems.length then elems.tail else elems)
    | _ => .arr [eid]

/-- The record of the new generation: output, progress and cancellation of the old one
are cleared. -/
def reopened (current : Fields ν) (oldStatus : Json ν) (executionId initialStatus : String)
    (now : Nat) : Fields ν :=
  let f := current.set "previous_execution_ids"
    (tracePrevious (current "previous_execution_ids") (current "execution_id"))
  let f := (f.set "previous_status" oldStatus).set "execution_id" (.str executionId)
  let f := (f.set "status" (.str initialStatus)).set "cancel_requested" (.bool false)
  let f := ((f.unset "result").unset "error").unset "progress"
  (f.unset "cancel_outcome").set "reopened_at" (.num (LuaNumber.ofNat now))

def taskReopen (cfg : Config) (taskId executionId initialStatus : String) (expiry : Int)
    (s : Store ν) : ReopenReply ν × Store ν :=
  match (s.records taskId).get with
  | none => (.notFound, s)
  | some current =>
    let expiry := effectiveExpiry cfg expiry ((s.records taskId).ttl s.now)
    let oldStatus := Json.orEmpty (current "status")
    if !isTerminal cfg oldStatus then (.notTerminal oldStatus, s)
    else if expiry ≤ 0 then (.raised, s)
    else
      let s := setRecord taskId (reopened current oldStatus executionId initialStatus s.now)
        expiry.toNat s
      -- a terminal status is a string, so the key concatenation cannot raise
      let oldKey := oldStatus.concat.getD ""
      let s := if oldKey ≠ "" then dropStatus oldKey taskId s else s
      let s := if initialStatus ≠ "" then leaseStatus initialStatus taskId expiry.toNat s else s
      (.reopened executionId oldStatus, s)

/-! ## Reads -/

/-- `get_task`; the empty dictionary of a missing record is `none`. -/
def getTask (taskId : String) (s : Store ν) : Option (Fields ν) := (s.records taskId).get

/-- The cleanup of the read path: drop the members whose record has expired. -/
def cleanUpStatus (status : String) (nowMs : Nat) (s : Store ν) : Store ν :=
  { s with
    statusIndex := Function.update s.statusIndex status
      (remRangeByScore nowMs (s.statusIndex status)) }

/-- `list_task_ids_by_status`: clean up, then read the index in expiry order. -/
def listTaskIdsByStatus (status : String) (limit : Option Int) (s : Store ν) :
    List String × Store ν :=
  match limit with
  | none =>
    let s := cleanUpStatus status s.now s
    (range (s.statusIndex status), s)
  | some n =>
    if n ≤ 0 then ([], s)
    else
      let s := cleanUpStatus status s.now s
      ((range (s.statusIndex status)).take n.toNat, s)

/-- The Python side of the transfer check: equal, or in the table. -/
def canTransfer (cfg : Config) : Json ν → Json ν → Bool
  | .str a, .str b => (cfg.transitions a).contains b
  | _, _ => false

/-- The pre-check of `update_task` on the record it has read. -/
def transferAllowed (cfg : Config) (rec : Fields ν) (updates : Fields ν) : Bool :=
  let oldStatus := (rec "status").getD (.str "")
  let newStatus := (updates "status").getD (.str "")
  oldStatus.pyEq newStatus || canTransfer cfg oldStatus newStatus

end Orditect.TaskStore
