import Mathlib.Data.List.Sort
import Mathlib.Data.Prod.Lex
import Orditect.Snapshot.Memory
import Orditect.Snapshot.Payload
import Orditect.Trace.File
/-!
# The snapshot part of the local adapter

`LocalSnapshotPart`: an append-only file of rows.  Each call reads the file and folds the
rows of a key into the record of that key; a write that raises appends nothing.
-/

namespace Orditect.Snapshot

open Support.Instant Support.JsonText Support.LuaJson Trace

/-- A row of the stream, and whether it was written by `save_terminal`. -/
structure Row (τ ν : Type) where
  terminal : Bool
  data : TaskSnapshot τ ν

/-! ## The fold -/

section

variable {τ ν : Type}

def recordAt (rows : List (Row τ ν)) (key : Key) : Option (TaskSnapshot τ ν) :=
  foldSnapshotRows ((rows.filter fun row => row.data.key == key).map Row.data)

def records (rows : List (Row τ ν)) : List (TaskSnapshot τ ν) :=
  (rows.map fun row => row.data.key).eraseDups.filterMap (recordAt rows)

def terminals (rows : List (Row τ ν)) : List Key :=
  (rows.filter Row.terminal).map fun row => row.data.key

end

variable {ν : Type} [NumberText ν] [LuaNumber ν]

def isSaveTerminal : Option (Json ν) → Bool
  | some (.str op) => op == "save_terminal"
  | _ => false

def Local.rows (file : List Char) : List (Row String ν) :=
  (iterEnvelopes file).filterMap fun env =>
    (rowData env).bind fun data => (readRow data).map fun s => ⟨isSaveTerminal (env.lookup "op"), s⟩

def Local.record (file : List Char) (key : Key) : Option (TaskSnapshot String ν) :=
  recordAt (Local.rows file) key

def Local.terminal (file : List Char) : List Key := terminals (Local.rows (ν := ν) file)

/-! ## Writers -/

def Local.save (file : List Char) (ts : DateTime) (snapshot : TaskSnapshot DateTime ν) :
    Option (List Char) :=
  match Local.record (ν := ν) file snapshot.key with
  | some existing =>
    if snapshot.key ∈ Local.terminal (ν := ν) file ∧ snapshot.status ≠ "" ∧
        snapshot.status ≠ existing.status then none
    else some (appendEnvelope file ⟨"save", ts, snapshot.toPayload⟩)
  | none => some (appendEnvelope file ⟨"save", ts, snapshot.toPayload⟩)

def Local.saveTerminal [DecidableEq ν] (file : List Char) (ts : DateTime)
    (snapshot : TaskSnapshot DateTime ν) : Option (List Char) :=
  match Local.record file snapshot.key, decide (snapshot.key ∈ Local.terminal (ν := ν) file) with
  | some existing, true =>
    if samePayload existing (snapshot.map DateTime.iso) then some file else none
  | _, _ => some (appendEnvelope file ⟨"save_terminal", ts, snapshot.toPayload⟩)

/-! ## Sequences of writes -/

inductive Write where
  | save
  | saveTerminal
  deriving DecidableEq, Repr

/-- A call of a writer; `ts` is the clock when the row is appended. -/
structure Call (ν : Type) where
  op : Write
  snapshot : TaskSnapshot DateTime ν
  ts : DateTime

def Local.call [DecidableEq ν] (file : List Char) (c : Call ν) : Option (List Char) :=
  match c.op with
  | .save => Local.save file c.ts c.snapshot
  | .saveTerminal => Local.saveTerminal file c.ts c.snapshot

def Memory.call [DecidableEq ν] (m : Memory DateTime ν) (c : Call ν) : Option (Memory DateTime ν) :=
  match c.op with
  | .save => m.save c.snapshot
  | .saveTerminal => m.saveTerminal c.snapshot

def after {σ : Type} (call : σ → Call ν → Option σ) (s : σ) (calls : List (Call ν)) : σ :=
  calls.foldl (fun s c => (call s c).getD s) s

/-! ## Readers -/

def Local.alive (now : DateTime) (s : TaskSnapshot String ν) : Bool :=
  match s.expireAt with
  | none => true
  | some text =>
    match DateTime.parse text with
    | none => true
    | some instant => now < instant

def Local.candidates (file : List Char) (now : DateTime) (taskId step : String)
    (executionId : Option String) : List (TaskSnapshot String ν) :=
  (records (Local.rows file)).filter fun s =>
    s.taskId == taskId && s.step == step &&
      (match executionId with | some e => s.executionId == e | none => true) && Local.alive now s

/-- `get`: the order is that of the texts. -/
def Local.get (file : List Char) (now : DateTime) (taskId step : String)
    (executionId : Option String) : Option (TaskSnapshot DateTime ν) :=
  (newest (Local.candidates file now taskId step executionId)).bind TaskSnapshot.validate

def Local.live (file : List Char) (now : DateTime) : List (TaskSnapshot String ν) :=
  (records (Local.rows file)).filter (Local.alive now)

/-- `get_tree`; the order of the generations is that of the texts. -/
def Local.getTree (file : List Char) (now : DateTime) (rootTaskId : String)
    (maxDepth : Option Int) (latestOnly : Bool) : Option (List (TaskSnapshot DateTime ν)) :=
  let depthLimit := maxDepth.getD maxTraversalDepth
  let out := (walk (Local.live (ν := ν) file now) (depthLimit + 1).toNat rootTaskId ⟨[], []⟩).out
  (if latestOnly then latestPerNode out else out).mapM TaskSnapshot.validate

/-- `get_ancestors`; the order of the snapshots of a task is that of the texts. -/
def Local.getAncestors (file : List Char) (now : DateTime) (taskId : String) (includeSelf : Bool) :
    Option (List (TaskSnapshot DateTime ν)) :=
  (ancestors (byId (Local.live (ν := ν) file now)) taskId includeSelf).mapM TaskSnapshot.validate

structure Page where
  limit : Nat := 100
  offset : Nat := 0
  limit_pos : 0 < limit := by decide

inductive SortDirection where
  | asc
  | desc
  deriving DecidableEq, Repr

/-- `Sort` of the protocol. -/
structure Sorting where
  field : String := "created_at"
  direction : SortDirection := .desc

def sortFields : List String := ["created_at", "updated_at", "expire_at"]

/-- `_sort_key`: no expiry sorts as infinitely far. -/
def Local.sortKey (field : String) (s : TaskSnapshot String ν) : Bool ×ₗ String :=
  if field = "created_at" then toLex (false, s.createdAt)
  else if field = "updated_at" then toLex (false, s.updatedAt)
  else
    match s.expireAt with
    | none => toLex (true, "")
    | some text => toLex (false, text)

/-- A stable sort by a key; where the direction is descending, rows of one key stay in their
order as well. -/
def sortBy {α κ : Type} [LinearOrder κ] (key : α → κ) : SortDirection → List α → List α
  | .asc, rows => rows.insertionSort fun a b => key a ≤ key b
  | .desc, rows => rows.insertionSort fun a b => key b ≤ key a

def Local.listVersions (file : List Char) (now : DateTime) (taskId step : String)
    (page : Page) (sort : Sorting) : Option (List (TaskSnapshot DateTime ν)) :=
  if sort.field ∈ sortFields then
    let rows := sortBy (Local.sortKey sort.field) sort.direction
      (Local.candidates (ν := ν) file now taskId step none)
    ((rows.drop page.offset).take page.limit).mapM TaskSnapshot.validate
  else none

end Orditect.Snapshot
