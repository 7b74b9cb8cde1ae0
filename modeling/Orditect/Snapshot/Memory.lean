import Mathlib.Order.Lattice
import Orditect.Snapshot.Record
/-!
# The snapshot part of the memory adapter

`MemorySnapshotPart`: a dictionary of snapshots in insertion order, one for each task, step
and execution id, and the set of those that were saved as terminal.  A write that raises
changes nothing.
-/

namespace Orditect.Snapshot

open Support.LuaJson

structure Memory (τ ν : Type) where
  snaps : List (TaskSnapshot τ ν)
  terminal : List Key

section

variable {τ ν : Type}

def Memory.empty : Memory τ ν := ⟨[], []⟩

def Memory.find (m : Memory τ ν) (key : Key) : Option (TaskSnapshot τ ν) :=
  m.snaps.find? fun s => s.key == key

/-- `self._snaps[key] = snapshot`: a key that is there keeps its place. -/
def Memory.put (m : Memory τ ν) (snapshot : TaskSnapshot τ ν) : Memory τ ν :=
  if (m.find snapshot.key).isSome then
    { m with snaps := m.snaps.map fun s => if s.key == snapshot.key then snapshot else s }
  else { m with snaps := m.snaps ++ [snapshot] }

def Memory.save (m : Memory τ ν) (snapshot : TaskSnapshot τ ν) : Option (Memory τ ν) :=
  match m.find snapshot.key with
  | some existing =>
    if snapshot.key ∈ m.terminal ∧ snapshot.status ≠ "" ∧ snapshot.status ≠ existing.status then
      none
    else some (m.put (foldRow existing snapshot))
  | none => some (m.put snapshot)

def Memory.saveTerminal [DecidableEq τ] [DecidableEq ν] [LuaNumber ν] (m : Memory τ ν)
    (snapshot : TaskSnapshot τ ν) : Option (Memory τ ν) :=
  match m.find snapshot.key, decide (snapshot.key ∈ m.terminal) with
  | some existing, true => if samePayload existing snapshot then some m else none
  | _, _ =>
    let m := m.put snapshot
    some { m with terminal := snapshot.key :: m.terminal }

/-! ## Readers -/

def TaskSnapshot.alive [LinearOrder τ] (now : τ) (s : TaskSnapshot τ ν) : Bool :=
  match s.expireAt with
  | none => true
  | some instant => now < instant

/-- The last row after a stable sort by creation instant. -/
def newest [LinearOrder τ] (rows : List (TaskSnapshot τ ν)) : Option (TaskSnapshot τ ν) :=
  rows.foldl (fun last row =>
    match last with
    | some l => if l.createdAt ≤ row.createdAt then some row else some l
    | none => some row) none

/-- `get`: the newest snapshot of a step, of one execution if that is given. -/
def Memory.get [LinearOrder τ] (m : Memory τ ν) (now : τ) (taskId step : String)
    (executionId : Option String) : Option (TaskSnapshot τ ν) :=
  newest (m.snaps.filter fun s =>
    s.taskId == taskId && s.step == step &&
      (match executionId with | some e => s.executionId == e | none => true) && s.alive now)

/-! ## The tree -/

def maxTraversalDepth : Int := 32

def TaskSnapshot.node (s : TaskSnapshot τ ν) : String × String := (s.taskId, s.step)

/-- One turn of `_latest_per_node`: a node that is there keeps its place. -/
def addLatest [LinearOrder τ] (latest : List (TaskSnapshot τ ν)) (s : TaskSnapshot τ ν) :
    List (TaskSnapshot τ ν) :=
  match latest.find? fun l => l.node == s.node with
  | some l =>
    if l.createdAt ≤ s.createdAt then latest.map fun l => if l.node == s.node then s else l
    else latest
  | none => latest ++ [s]

def latestPerNode [LinearOrder τ] (snaps : List (TaskSnapshot τ ν)) : List (TaskSnapshot τ ν) :=
  snaps.foldl addLatest []

structure Traversal (τ ν : Type) where
  out : List (TaskSnapshot τ ν)
  visited : List String

/-- `walk`, with the number of levels it may still go down. -/
def walk (alive : List (TaskSnapshot τ ν)) : Nat → String → Traversal τ ν → Traversal τ ν
  | 0, _, w => w
  | levels + 1, taskId, w =>
    if taskId ∈ w.visited then w
    else
      (alive.filter fun s => s.parentTaskId == some taskId).foldl
        (fun w child => walk alive levels child.taskId w)
        ⟨w.out ++ alive.filter fun s => s.taskId == taskId, taskId :: w.visited⟩

def Memory.getTree [LinearOrder τ] (m : Memory τ ν) (now : τ) (rootTaskId : String)
    (maxDepth : Option Int) (latestOnly : Bool) : List (TaskSnapshot τ ν) :=
  let depthLimit := maxDepth.getD maxTraversalDepth
  let out := (walk (m.snaps.filter fun s => s.alive now) (depthLimit + 1).toNat rootTaskId
    ⟨[], []⟩).out
  if latestOnly then latestPerNode out else out

/-! ## Ancestors -/

/-- What `by_id` has for a task: of the newest live snapshots the last one. -/
def byId [LinearOrder τ] (alive : List (TaskSnapshot τ ν)) (taskId : String) :
    Option (TaskSnapshot τ ν) :=
  newest (alive.filter fun s => s.taskId == taskId)

/-- The loop of `get_ancestors`, with the number of levels it may still go up. -/
def climb (byId : String → Option (TaskSnapshot τ ν)) :
    Nat → TaskSnapshot τ ν → List String → List (TaskSnapshot τ ν)
  | 0, _, _ => []
  | levels + 1, current, visited =>
    match current.parentTaskId with
    | none => []
    | some parentId =>
      if parentId ∈ visited then []
      else
        match byId parentId with
        | none => []
        | some parent => parent :: climb byId levels parent (parentId :: visited)

def ancestors (byId : String → Option (TaskSnapshot τ ν)) (taskId : String) (includeSelf : Bool) :
    List (TaskSnapshot τ ν) :=
  match byId taskId with
  | none => []
  | some current =>
    if includeSelf then (current :: climb byId maxTraversalDepth.toNat current [taskId]).reverse
    else (climb byId maxTraversalDepth.toNat current []).reverse

def Memory.getAncestors [LinearOrder τ] (m : Memory τ ν) (now : τ) (taskId : String)
    (includeSelf : Bool) : List (TaskSnapshot τ ν) :=
  ancestors (byId (m.snaps.filter fun s => s.alive now)) taskId includeSelf

end

/-! ## Writes -/

variable {τ ν : Type} {snapshot : TaskSnapshot τ ν} {key : Key}

theorem find?_replace {rows : List (TaskSnapshot τ ν)}
    (h : (rows.find? fun s => s.key == snapshot.key).isSome = true) :
    (rows.map fun s => if s.key == snapshot.key then snapshot else s).find?
      (fun s => s.key == snapshot.key) = some snapshot := by
  induction rows with
  | nil => simp at h
  | cons row rows ih =>
    by_cases hrow : row.key = snapshot.key
    · simp [hrow]
    · have hrest : (rows.find? fun s => s.key == snapshot.key).isSome = true := by
        simpa [hrow] using h
      simpa [hrow] using ih hrest

theorem Memory.find_put_self (m : Memory τ ν) (snapshot : TaskSnapshot τ ν) :
    (m.put snapshot).find snapshot.key = some snapshot := by
  unfold Memory.put
  split
  · rename_i h
    exact find?_replace h
  · rename_i h
    have hnone : m.snaps.find? (fun s => s.key == snapshot.key) = none := by
      simpa [Memory.find] using h
    simp [Memory.find, List.find?_append, hnone]

theorem find?_replace_of_ne {rows : List (TaskSnapshot τ ν)} (h : snapshot.key ≠ key) :
    (rows.map fun s => if s.key == snapshot.key then snapshot else s).find?
      (fun s => s.key == key) = rows.find? fun s => s.key == key := by
  induction rows with
  | nil => rfl
  | cons row rows ih =>
    by_cases hrow : row.key = snapshot.key
    · simpa [hrow, h] using ih
    · by_cases hkey : row.key = key
      · simp [hkey, Ne.symm h]
      · simpa [hrow, hkey] using ih

theorem Memory.find_put_of_ne (m : Memory τ ν) (h : snapshot.key ≠ key) :
    (m.put snapshot).find key = m.find key := by
  unfold Memory.put
  split
  · exact find?_replace_of_ne h
  · simp [Memory.find, List.find?_append, h]

theorem Memory.key_of_find {m : Memory τ ν} {s : TaskSnapshot τ ν} (h : m.find key = some s) :
    s.key = key := by
  have hkey := List.find?_some h
  simpa using hkey

theorem Memory.terminal_put (m : Memory τ ν) (snapshot : TaskSnapshot τ ν) :
    (m.put snapshot).terminal = m.terminal := by
  unfold Memory.put
  split <;> rfl

theorem Memory.saveTerminal_spec [DecidableEq τ] [DecidableEq ν] [LuaNumber ν] (m : Memory τ ν)
    (snapshot : TaskSnapshot τ ν) :
    ((m.find snapshot.key).isSome = true ∧ snapshot.key ∈ m.terminal ∧
        (m.saveTerminal snapshot).getD m = m) ∨
      ((m.find snapshot.key = none ∨ snapshot.key ∉ m.terminal) ∧
        ((m.saveTerminal snapshot).getD m).find snapshot.key = some snapshot ∧
        snapshot.key ∈ ((m.saveTerminal snapshot).getD m).terminal) := by
  unfold Memory.saveTerminal
  split
  · rename_i existing hfind hterminal
    refine Or.inl ⟨by simp [hfind], by simpa using hterminal, ?_⟩
    split <;> rfl
  · rename_i hopen
    refine Or.inr ⟨?_, m.find_put_self snapshot, List.mem_cons_self⟩
    by_cases hterminal : snapshot.key ∈ m.terminal
    · left
      rw [Option.eq_none_iff_forall_ne_some]
      intro existing hfind
      exact hopen existing hfind (by simpa using hterminal)
    · exact Or.inr hterminal

end Orditect.Snapshot
