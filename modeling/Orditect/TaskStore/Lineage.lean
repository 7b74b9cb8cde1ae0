import Orditect.TaskStore.System
/-!
# The lineage index

`list_children` and its cleanup, beside the clients of the task store.  A client reads
the clock, drops the expired members and reads the rest; the clock reading may be old when
the cleanup runs.
-/

namespace Orditect.TaskStore

open Support.SortedSet Support.LuaJson

variable {ν : Type}

/-- The cleanup of the read path: drop the children whose lease has run out. -/
def cleanUpChildren (parentId : String) (nowMs : Nat) (s : Store ν) : Store ν :=
  { s with
    childrenIndex := Function.update s.childrenIndex parentId
      (remRangeByScore nowMs (s.childrenIndex parentId)) }

/-- `list_children`: clean up, then read the index in expiry order. -/
def listChildren (parentId : String) (s : Store ν) : List String × Store ν :=
  let s := cleanUpChildren parentId s.now s
  (range (s.childrenIndex parentId), s)

inductive LineageEvent (ν : Type) where
  | call (event : Event ν)
  | listChildren (parentId : String) (nowMs : Nat)

/-- The clients of the task store, some of them listing children. -/
def lineageStep [DecidableEq ν] [LuaNumber ν] (cfg : Config) (s : State ν) :
    LineageEvent ν → Option (State ν)
  | .call event => step cfg s event
  | .listChildren parentId nowMs =>
    if nowMs ≤ s.store.now then
      some { s with store := cleanUpChildren parentId nowMs s.store }
    else none

end Orditect.TaskStore
