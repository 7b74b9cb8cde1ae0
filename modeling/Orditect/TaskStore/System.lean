import Orditect.Support.Transition
import Orditect.TaskStore.Scripts
/-!
# Clients of the task store

Any number of clients call `initialize_task`, `update_task` and `reopen_task`.  A
call is on its way until its script has run; `update_task` may read the record first,
and other clients act between that read and the script.  Execution ids are generated
when a call begins and are never generated twice.
-/

namespace Orditect.TaskStore

open Support.Expiring Support.LuaJson

variable {ν : Type} [DecidableEq ν] [LuaNumber ν]

inductive Call (ν : Type) where
  | initializeTask (taskId : String) (expiry : Option Int) (initialStatus : String)
      (ifNotExists : Bool) (parentTaskId : Option String) (timestamp executionId : String)
  | validateTransfer (taskId : String) (updates : Fields ν) (expiry : Option Int)
  | updateTask (taskId : String) (updates : Fields ν) (expiry : Option Int)
  | reopenTask (taskId initialStatus : String) (expiry : Option Int) (executionId : String)

def Call.executionId : Call ν → Option String
  | .initializeTask _ _ _ _ _ _ executionId => some executionId
  | .reopenTask _ _ _ executionId => some executionId
  | _ => none

structure State (ν : Type) where
  store : Store ν
  calls : Nat → Option (Call ν)
  issued : List String

inductive Event (ν : Type) where
  | initializeTask (client : Nat) (taskId : String) (expiry : Option Int) (initialStatus : String)
      (ifNotExists : Bool) (parentTaskId : Option String) (timestamp executionId : String)
  | updateTask (client : Nat) (taskId : String) (updates : Fields ν) (expiry : Option Int)
      (validateStatusTransfer : Bool)
  | reopenTask (client : Nat) (taskId initialStatus : String) (expiry : Option Int)
      (executionId : String)
  | proceed (client : Nat)
  | listTaskIdsByStatus (status : String) (nowMs : Nat)
  | advance (ms : Nat)
  | evict (taskId : String)

def start (now : Nat) : State ν :=
  ⟨⟨now, fun _ => none, fun _ => none, fun _ => none⟩, fun _ => none, []⟩

def begin (client : Nat) (call : Call ν) (s : State ν) : Option (State ν) :=
  match s.calls client, call.executionId with
  | some _, _ => none
  | none, none => some { s with calls := Function.update s.calls client (some call) }
  | none, some executionId =>
    if executionId ∈ s.issued then none
    else some { s with
      calls := Function.update s.calls client (some call)
      issued := executionId :: s.issued }

def perform (cfg : Config) (store : Store ν) : Call ν → Option (Call ν) × Store ν
  | .initializeTask taskId expiry initialStatus ifNotExists parentTaskId timestamp executionId =>
    (none, (taskInit (initialData timestamp initialStatus parentTaskId)
      (expiry.getD cfg.defaultExpireTime) taskId ifNotExists initialStatus
      (parentTaskId.getD "") executionId store).2)
  | .validateTransfer taskId updates expiry =>
    match getTask taskId store with
    | none => (none, store)
    | some rec =>
      if transferAllowed cfg rec updates then (some (.updateTask taskId updates expiry), store)
      else (none, store)
  | .updateTask taskId updates expiry =>
    (none, (taskUpdate cfg updates (expiry.getD (-1)) taskId store).2)
  | .reopenTask taskId initialStatus expiry executionId =>
    (none, (taskReopen cfg taskId executionId initialStatus (expiry.getD (-1)) store).2)

def tick (ms : Nat) (s : Store ν) : Store ν :=
  let now := s.now + ms
  ⟨now, fun k => (s.records k).purge now, fun k => (s.statusIndex k).purge now,
    fun k => (s.childrenIndex k).purge now⟩

def step (cfg : Config) (s : State ν) : Event ν → Option (State ν)
  | .initializeTask client taskId expiry initialStatus ifNotExists parentTaskId timestamp eid =>
    begin client (.initializeTask taskId expiry initialStatus ifNotExists parentTaskId timestamp
      eid) s
  | .updateTask client taskId updates expiry validate =>
    begin client (if validate && (updates "status").isSome
      then .validateTransfer taskId updates expiry
      else .updateTask taskId updates expiry) s
  | .reopenTask client taskId initialStatus expiry executionId =>
    begin client (.reopenTask taskId initialStatus expiry executionId) s
  | .proceed client =>
    match s.calls client with
    | none => none
    | some call =>
      let (next, store) := perform cfg s.store call
      some { s with store := store, calls := Function.update s.calls client next }
  | .listTaskIdsByStatus status nowMs =>
    -- the clock was read at some earlier moment
    if nowMs ≤ s.store.now then some { s with store := cleanUpStatus status nowMs s.store }
    else none
  | .advance ms => some { s with store := tick ms s.store }
  | .evict taskId =>
    some { s with store :=
      { s.store with records := Function.update s.store.records taskId none } }

def field (s : Store ν) (taskId key : String) : Option (Json ν) :=
  (getTask taskId s).bind fun record => record key

end Orditect.TaskStore
