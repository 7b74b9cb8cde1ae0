import Orditect.Support.JsonText
/-!
# Snapshot records

`TaskSnapshot` of the protocol, and the two functions of `mechanism.py` that both adapters
call: the fold of the rows of one generation, and the comparison of two payloads.  A field
that a row does not have is `none`, as in a payload that omits what is `None`.
-/

namespace Orditect.Snapshot

open Support.JsonText Support.LuaJson

structure TaskPointer (ν : Type) where
  backend : String
  key : String
  metadata : Option (Dict ν) := none

def Cost (ν : Type) := { metrics : List (String × ν) // (metrics.map Prod.fst).Nodup }

/-- An adapter keeps the instants as values or as text; `τ` is the type of either. -/
structure TaskSnapshot (τ ν : Type) where
  taskId : String
  step : String
  executionId : String
  parentTaskId : Option String := none
  status : String := ""
  inputPointer : Option (TaskPointer ν) := none
  outputPointer : Option (TaskPointer ν) := none
  error : Option String := none
  cost : Option (Cost ν) := none
  model : Option String := none
  createdAt : τ
  updatedAt : τ
  expireAt : Option τ := none

structure Key where
  taskId : String
  step : String
  executionId : String
  deriving DecidableEq, Repr

variable {τ ν : Type}

def TaskSnapshot.key (s : TaskSnapshot τ ν) : Key := ⟨s.taskId, s.step, s.executionId⟩

/-- A turn of `fold_snapshot_rows` after the first: a status that is not empty and a field that
is not `None` overwrite, the creation instant stays. -/
def foldRow (existing row : TaskSnapshot τ ν) : TaskSnapshot τ ν :=
  { existing with
    parentTaskId := row.parentTaskId.or existing.parentTaskId
    inputPointer := row.inputPointer.or existing.inputPointer
    outputPointer := row.outputPointer.or existing.outputPointer
    error := row.error.or existing.error
    cost := row.cost.or existing.cost
    model := row.model.or existing.model
    expireAt := row.expireAt.or existing.expireAt
    status := if row.status = "" then existing.status else row.status
    updatedAt := row.updatedAt }

def foldSnapshotRows : List (TaskSnapshot τ ν) → Option (TaskSnapshot τ ν)
  | [] => none
  | row :: rows => some (rows.foldl foldRow row)

def TaskPointer.dump (p : TaskPointer ν) : Json ν :=
  .obj ([("backend", .str p.backend), ("key", .str p.key)] ++
    p.metadata.toList.map fun metadata => ("metadata", .obj metadata.1))

def dumpCost (cost : Cost ν) : Json ν := .obj (cost.1.map fun c => (c.1, .num c.2))

/-- Python's `==` on a field that may be absent. -/
def sameField [DecidableEq ν] [LuaNumber ν] : Option (Json ν) → Option (Json ν) → Bool
  | none, none => true
  | some a, some b => a.pyEq b
  | _, _ => false

/-- `idempotent_payload_equal`: equal but for the clocks. -/
def samePayload [DecidableEq τ] [DecidableEq ν] [LuaNumber ν] (a b : TaskSnapshot τ ν) : Bool :=
  a.key == b.key && a.parentTaskId == b.parentTaskId && a.status == b.status &&
    sameField (a.inputPointer.map TaskPointer.dump) (b.inputPointer.map TaskPointer.dump) &&
    sameField (a.outputPointer.map TaskPointer.dump) (b.outputPointer.map TaskPointer.dump) &&
    a.error == b.error && sameField (a.cost.map dumpCost) (b.cost.map dumpCost) &&
    a.model == b.model && a.expireAt == b.expireAt

end Orditect.Snapshot
