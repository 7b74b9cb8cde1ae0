import Orditect.Support.JsonText
/-!
# The data rules of the snapshot domain

`dr_snp_001` and `dr_snp_002` of the protocol package.  A rule goes over the rows of a stream,
whoever has written them, and remembers the status that each key was saved as terminal with.
-/

namespace Orditect.Snapshot.Rules

open Support.JsonText Support.LuaJson

inductive Level where
  | violation
  | warning
  deriving DecidableEq, Repr

structure Finding where
  rule : String
  level : Level
  location : String
  message : String
  term : String
  degraded : Bool := false
  deriving DecidableEq, Repr

variable {ν : Type}

/-! ## Rows -/

inductive Domain where
  | snapshot
  | audit
  | edge
  deriving DecidableEq, Repr

def isOp (ops : List String) : Option (Json ν) → Bool
  | some (.str op) => decide (op ∈ ops)
  | _ => false

def hasFields (names : List String) : Option (Json ν) → Bool
  | some (.obj data) => names.all fun name => (data.lookup name).isSome
  | _ => false

def Domain.contains (op data : Option (Json ν)) : Domain → Bool
  | .snapshot => isOp ["save", "save_terminal"] op || hasFields ["execution_id"] data
  | .audit => isOp ["append"] op || hasFields ["event_id"] data
  | .edge => isOp ["edge_write"] op || hasFields ["child_id", "parent_id"] data

def iterDomainRows (lines : List (Json ν)) (domain : Domain) :
    List (Nat × List (String × Json ν)) :=
  lines.zipIdx.filterMap fun
    | (.obj line, i) =>
      if (line.lookup "meta").isNone && domain.contains (line.lookup "op") (line.lookup "data")
      then some (i, line) else none
    | _ => none

structure RowKey (ν : Type) where
  taskId : Json ν
  step : Json ν
  executionId : Json ν

def hashable : Json ν → Bool
  | .arr _ | .obj _ => false
  | _ => true

/-- The key and the status of a row; `none` where the data is not a dictionary or the key cannot
be hashed, and the rule raises. -/
def keyAndStatus (line : List (String × Json ν)) : Option (RowKey ν × Json ν) :=
  match (line.lookup "data").getD (.obj []) with
  | .obj data =>
    let key : RowKey ν := ⟨(data.lookup "task_id").getD .null, (data.lookup "step").getD .null,
      (data.lookup "execution_id").getD .null⟩
    if hashable key.taskId && hashable key.step && hashable key.executionId
    then some (key, (data.lookup "status").getD (.str "")) else none
  | _ => none

/-! ## What a rule remembers -/

section

variable [DecidableEq ν] [LuaNumber ν]

def RowKey.same (a b : RowKey ν) : Bool :=
  a.taskId.pyEq b.taskId && a.step.pyEq b.step && a.executionId.pyEq b.executionId

abbrev Baseline (ν : Type) := List (RowKey ν × Json ν)

def Baseline.get (baseline : Baseline ν) (key : RowKey ν) : Option (Json ν) :=
  (baseline.find? fun entry => entry.1.same key).map Prod.snd

/-- The empty status is no status. -/
def Baseline.note (baseline : Baseline ν) (key : RowKey ν) (status : Json ν) : Baseline ν :=
  if status.truthy then (key, status) :: baseline else baseline

/-- The finding that the row departs from what is remembered of its key, if it does. -/
def Baseline.drift (baseline : Baseline ν) (key : RowKey ν) (status : Json ν)
    (finding : Json ν → Finding) : List Finding :=
  match baseline.get key with
  | some recorded => if status.truthy && !status.pyEq recorded then [finding recorded] else []
  | none => []

/-! ## The rules -/

variable (repr : Json ν → String)

structure Scan (ν : Type) where
  findings : List Finding
  terminal : Baseline ν
  seenStatus : Baseline ν

def drSnp001Row (scan : Scan ν) (row : Nat × List (String × Json ν)) : Option (Scan ν) :=
  (keyAndStatus row.2).map fun (key, status) =>
    let op := row.2.lookup "op"
    if isOp ["save", "save_terminal"] op then
      { scan with
        findings := scan.findings ++ scan.terminal.drift key status fun recorded =>
          { rule := "DR-SNP-001", level := .violation,
            location := "snapshots[" ++ toString row.1 ++ "].data",
            message := "status drift after terminal: " ++ repr recorded ++ " -> " ++ repr status,
            term := "T3" }
        terminal :=
          if isOp ["save_terminal"] op then scan.terminal.note key status else scan.terminal }
    else
      -- the row does not say which call has written it
      { scan with
        findings := scan.findings ++ scan.seenStatus.drift key status fun recorded =>
          { rule := "DR-SNP-001", level := .violation,
            location := "snapshots[" ++ toString row.1 ++ "].data",
            message := "status drift within one generation (degraded: op absent): " ++
              repr recorded ++ " -> " ++ repr status,
            term := "T3", degraded := true }
        seenStatus := scan.seenStatus.note key status }

def drSnp001 (lines : List (Json ν)) : Option (List Finding) :=
  ((iterDomainRows lines .snapshot).foldlM (drSnp001Row repr) ⟨[], [], []⟩).map Scan.findings

def drSnp002Row (scan : Scan ν) (row : Nat × List (String × Json ν)) : Option (Scan ν) :=
  let op := row.2.lookup "op"
  if isOp ["save", "save_terminal"] op then
    (keyAndStatus row.2).map fun (key, status) =>
      { scan with
        findings := scan.findings ++ scan.terminal.drift key status fun recorded =>
          { rule := "DR-SNP-002", level := .violation,
            location := "snapshots[" ++ toString row.1 ++ "]",
            message := "op " ++ repr (op.getD .null) ++ " after save_terminal changes status: " ++
              repr recorded ++ " -> " ++ repr status,
            term := "T3" }
        terminal :=
          if isOp ["save_terminal"] op then scan.terminal.note key status else scan.terminal }
  else some scan

/-- `dr_snp_002`, which has nothing to say where no row has an op; `none` where it raises. -/
def drSnp002 (lines : List (Json ν)) : Option (List Finding) :=
  let rows := iterDomainRows lines .snapshot
  if rows.any fun row => isOp ["save", "save_terminal"] (row.2.lookup "op") then
    (rows.foldlM (drSnp002Row repr) ⟨[], [], []⟩).map Scan.findings
  else some []

end

end Orditect.Snapshot.Rules
