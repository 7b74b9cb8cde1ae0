import Orditect.Recovery.Service
/-!
# The action dispatcher

`ActionDispatcher` takes one command after the other from its queue.  A command whose id is in
the window of the ids seen last is skipped; any other one is delegated to the orchestrator or the
recovery service, and a receipt is written.
-/

namespace Orditect.Actions

open Recovery (ReuseDecision)

inductive ActionType where
  | pause
  | retry
  | resume
  deriving DecidableEq, Repr

def ActionType.value : ActionType → String
  | .pause => "pause"
  | .retry => "retry"
  | .resume => "resume"

structure ActionCommand where
  actionId : String
  actionType : ActionType
  targetTaskId : String
  rootTaskId : Option String := none
  scope : List String := []

structure Receipt where
  actionId : String
  actionType : String
  status : String
  detail : String
  deriving DecidableEq, Repr

/-- What the dispatcher delegates to, on a state of its own.  A call answers or raises; the
message of an exception is all that is used of it.  A plan is the list of its decisions. -/
structure Operations (σ : Type) where
  cancel : String → σ → Except String Bool × σ
  rerun : String → List String → σ → Except String (List ReuseDecision) × σ
  resume : String → σ → Except String (List ReuseDecision) × σ
  /-- The queue may take no receipts, or fail to. -/
  writeReceipt : Receipt → σ → σ

structure Dispatcher (σ : Type) where
  /-- The ids of the window, the one that was not seen for longest first. -/
  seen : List String
  world : σ

/-- `_mark_seen`: whether the id was there, and the window with it. -/
def markSeen (dedupCapacity : Nat) (seen : List String) (actionId : String) :
    Bool × List String :=
  if actionId ∈ seen then (true, seen.erase actionId ++ [actionId])
  else
    let seen := seen ++ [actionId]
    (false, if dedupCapacity < seen.length then seen.tail else seen)

variable {σ : Type}

def perform (ops : Operations σ) (command : ActionCommand) (world : σ) :
    (String × String) × σ :=
  match command.actionType with
  | .pause =>
    match ops.cancel command.targetTaskId world with
    | (.ok true, world) => (("executed", "cancelled"), world)
    | (.ok false, world) => (("rejected", "task not found or already terminal"), world)
    | (.error e, world) => (("failed", e), world)
  | .retry =>
    match command.rootTaskId with
    | none => (("rejected", "retry requires root_task_id"), world)
    | some rootTaskId =>
      let scope := if command.scope = [] then [command.targetTaskId] else command.scope
      match ops.rerun rootTaskId scope world with
      | (.ok plan, world) =>
        (("executed", "rerun=" ++ toString (plan.count .rerun) ++ " of " ++
          toString plan.length), world)
      | (.error e, world) => (("failed", e), world)
  | .resume =>
    match ops.resume command.targetTaskId world with
    | (.ok plan, world) =>
      (("executed", "reuse=" ++ toString (plan.count .reuse) ++ ", rerun=" ++
        toString (plan.count .rerun)), world)
    | (.error e, world) => (("failed", e), world)

def execute (ops : Operations σ) (dedupCapacity : Nat) (s : Dispatcher σ)
    (command : ActionCommand) : Option Receipt × Dispatcher σ :=
  match markSeen dedupCapacity s.seen command.actionId with
  | (true, seen) => (none, { s with seen })
  | (false, seen) =>
    let ((status, detail), world) := perform ops command s.world
    let receipt : Receipt := ⟨command.actionId, command.actionType.value, status, detail⟩
    (some receipt, ⟨seen, ops.writeReceipt receipt world⟩)

/-- `_loop`: the commands in the order in which they are taken from the queue. -/
def dispatch (ops : Operations σ) (dedupCapacity : Nat) (s : Dispatcher σ)
    (commands : List ActionCommand) : Dispatcher σ :=
  commands.foldl (fun s command => (execute ops dedupCapacity s command).2) s

end Orditect.Actions
