import Orditect.Support.Loop
import Orditect.Governance.Governor
/-!
# The offline tools

`scan_dependency_cycles` and `rebuild_dep_counters` of `governance/tools.py`.  Both read
the edges of the cold graph once; the first is a depth-first search with an explicit
stack of iterators, the second writes the dependency keys of every child again.
-/

namespace Orditect.Governance

open Support.PlainSet Support.Loop

/-- An edge of the cold graph, from the child to one of its parents. -/
structure DependencyEdge where
  childId : String
  parentId : String
  deriving DecidableEq

/-- `parents_of[child]`, the parents in the order of the edges; the scan calls the same
table `children`. -/
def parentsOf (edges : List DependencyEdge) (child : String) : List String :=
  (edges.filter fun e => e.childId = child).map DependencyEdge.parentId

/-! ## The cycle scan -/

def nodes (edges : List DependencyEdge) : Finset String :=
  (edges.flatMap fun e => [e.childId, e.parentId]).toFinset

/-- A stack frame: the node, the path that leads to it and what is left of the iterator
over its parents. -/
structure Frame where
  node : String
  path : List String
  parentsIter : List String
  deriving DecidableEq

/-- The variables of the scan.  The stack has its top first; `roots` is what is left of
the outer loop. -/
structure Scan where
  cycles : List (List String)
  seenCycles : Finset (List String)
  visited : Finset String
  inStack : Finset String
  stack : List Frame
  roots : List String
  deriving DecidableEq

namespace Scan

def start (edges : List DependencyEdge) : Scan where
  cycles := []
  seenCycles := ∅
  visited := ∅
  inStack := ∅
  stack := []
  roots := sortedMembers (nodes edges)

def push (edges : List DependencyEdge) (node : String) (path : List String) (scan : Scan) :
    Scan :=
  { scan with
    inStack := insert node scan.inStack
    stack := ⟨node, path, parentsOf edges node⟩ :: scan.stack }

def report (cycle : List String) (scan : Scan) : Scan :=
  let canonical := sortedMembers cycle.toFinset
  if canonical ∈ scan.seenCycles then scan
  else
    { scan with
      seenCycles := insert canonical scan.seenCycles
      cycles := scan.cycles ++ [cycle] }

/-- One round of the loops: the next root, the next parent of the frame on top, or the
end of its iterator.  `path.index` finds the parent, see `Searching.mem_path`. -/
def next (edges : List DependencyEdge) (scan : Scan) : Option Scan :=
  match scan.stack with
  | [] =>
    match scan.roots with
    | [] => none
    | root :: roots =>
      if root ∈ scan.visited then some { scan with roots := roots }
      else some ({ scan with roots := roots }.push edges root [root])
  | ⟨node, path, parent :: rest⟩ :: stack =>
    let scan' := { scan with stack := ⟨node, path, rest⟩ :: stack }
    if parent ∈ scan.inStack then
      some (scan'.report (path.drop (path.idxOf parent) ++ [parent]))
    else if parent ∈ scan.visited then some scan'
    else some (scan'.push edges parent (path ++ [parent]))
  | ⟨node, _, []⟩ :: stack =>
    some { scan with
      stack := stack
      inStack := scan.inStack.erase node
      visited := insert node scan.visited }

end Scan

def scanDependencyCycles (fuel : Nat) (edges : List DependencyEdge) :
    Option (List (List String)) :=
  (loop (Scan.next edges) fuel (Scan.start edges)).map Scan.cycles

/-! ## The counter rebuild -/

structure Vocabulary where
  successWords : List String := ["succeeded"]
  terminalWords : List String := defaultTerminalWords
  deriving DecidableEq

namespace Vocabulary

def isTerminal (words : Vocabulary) (status : String) : Bool :=
  decide (status ∈ words.terminalWords)

def isAbnormal (words : Vocabulary) (status : String) : Bool :=
  words.isTerminal status && !decide (status ∈ words.successWords)

end Vocabulary

/-- An injected lifecycle: `cancel` works on the hot records, neither creates nor drops
one, and answers whether it raised. -/
structure Lifecycle where
  cancel : String → (String → Option Record) → Bool × (String → Option Record)
  exists_iff : ∀ child records task,
    ((cancel child records).2 task).isSome = (records task).isSome

structure Stats where
  rebuilt : Nat := 0
  skipped : Nat := 0
  skippedChildren : List String := []
  cancelled : List String := []
  pendingCancel : List String := []
  errors : Nat := 0
  deriving DecidableEq

structure Tally where
  running : Nat
  reachedCancel : Bool
  missingParent : Bool
  store : Store

/-- The loop over the parents of one child; it writes as it goes and is left at the
first parent without a hot record. -/
def tallyParents (words : Vocabulary) (child : String) (threshold : Nat) :
    List String → Tally → Tally
  | [], tally => tally
  | parent :: parents, tally =>
    match tally.store.records parent with
    | none => { tally with missingParent := true }
    | some record =>
      if words.isAbnormal record.status then
        let vote := tally.store.voteAndCheckThreshold child parent threshold
        tallyParents words child threshold parents
          { tally with reachedCancel := tally.reachedCancel || vote.1, store := vote.2 }
      else if words.isTerminal record.status then
        tallyParents words child threshold parents tally
      else
        tallyParents words child threshold parents
          { tally with
            running := tally.running + 1
            store := tally.store.saddActiveChild parent child }

/-- The end of a child's round that set its counter: what `reached_cancel` leads to. -/
def settleCancel (lifecycle : Option Lifecycle) (child : String) (reachedCancel : Bool)
    (s : Store) (stats : Stats) : Store × Stats :=
  if reachedCancel then
    match lifecycle with
    | none => (s, { stats with pendingCancel := stats.pendingCancel ++ [child] })
    | some lifecycle =>
      let answer := lifecycle.cancel child s.records
      ({ s with records := answer.2 },
        if answer.1 then { stats with errors := stats.errors + 1 }
        else { stats with cancelled := stats.cancelled ++ [child] })
  else (s, stats)

def rebuildChild (words : Vocabulary) (lifecycle : Option Lifecycle)
    (edges : List DependencyEdge) (acc : Store × Stats) (child : String) : Store × Stats :=
  match acc.1.records child with
  | none => (acc.1, { acc.2 with skipped := acc.2.skipped + 1 })
  | some _ =>
    let parents := parentsOf edges child
    let tally := tallyParents words child parents.length parents ⟨0, false, false, acc.1⟩
    if tally.missingParent then
      (tally.store, { acc.2 with skippedChildren := acc.2.skippedChildren ++ [child] })
    else
      settleCancel lifecycle child tally.reachedCancel
        (tally.store.setRemainingDeps child tally.running)
        { acc.2 with rebuilt := acc.2.rebuilt + 1 }

def childrenOf (edges : List DependencyEdge) : List String :=
  (edges.map DependencyEdge.childId).eraseDups

def rebuildDepCounters (words : Vocabulary) (lifecycle : Option Lifecycle)
    (edges : List DependencyEdge) (s : Store) : Store × Stats :=
  (childrenOf edges).foldl (rebuildChild words lifecycle edges) (s, {})

end Orditect.Governance
