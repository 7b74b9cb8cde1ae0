import Orditect.Executor.Session
import Orditect.Support.Descent
import Orditect.TaskStore.Lineage
/-!
# Cancelling a task and what it has started

`cancel` and `terminate` of the orchestrator with `_cascade_children`, no other coroutine
acting and no coroutine of a task running in this process.  The clock stands still.
-/

namespace Orditect.Orchestrator

open Support.Descent Support.LuaJson
open Executor (Config status)
open Executor.Session (Handle)
open TaskStore (Store listChildren)

def forTask (cfg : Config) (taskId : String) : Config := { cfg with taskId := taskId }

def awaits : Handle → Nat
  | .read _ => 7
  | .requestRead _ => 6
  | .requestWrite _ => 5
  | .forceCancel => 4
  | .transitionRead _ => 3
  | .transitionWrite _ => 2
  | .confirm _ => 1
  | .returned _ _ | .raised => 0

def maxCascadeDepth : Nat := 32

section

variable {ν : Type} [DecidableEq ν] [LuaNumber ν]

def alone (cfg : Config) : Nat → Handle → Store ν → Handle × Store ν
  | 0, h, s => (h, s)
  | n + 1, h, s =>
    match h.next cfg (Executor.Session.start s .empty) with
    | some (h', s', _) => alone cfg n h' s'
    | none => (h, s)

/-- `lifecycle.cancel` or, with `force`, `_terminate_single`; `none` where it raises. -/
def cancelSingle (cfg : Config) (force : Bool) (taskId : String) (s : Store ν) :
    Option Bool × Store ν :=
  match alone (forTask cfg taskId) (awaits (.read force)) (.read force) s with
  | (.returned _ ok, s) => (some ok, s)
  | (_, s) => (none, s)

/-- One child in the loop of `_cascade_children`, and whether the recursion goes on below it.
An exception is only logged; a missing record and a foreign status are exceptions. -/
def cascadeChild (cfg : Config) (force : Bool) (childId : String) (s : Store ν) :
    Store ν × Bool :=
  match status (forTask cfg childId) s with
  | none => (s, false)
  | some childStatus =>
    if childStatus.isTerminal then (s, false)
    else
      match cancelSingle cfg force childId s with
      | (none, s) => (s, false)
      | (some _, s) => (s, true)

/-- `_cascade_children`; at the depth limit it returns. -/
def cascadeChildren (cfg : Config) (force : Bool) (depth : Nat) (taskId : String) (s : Store ν) :
    Store ν :=
  descend listChildren (cascadeChild cfg force) (maxCascadeDepth - depth) taskId s

def cancelTree (cfg : Config) (force : Bool) (taskId : String) (s : Store ν) :
    Option Bool × Store ν :=
  match cancelSingle cfg force taskId s with
  | (some true, s) => (some true, cascadeChildren cfg force 0 taskId s)
  | (reply, s) => (reply, s)

def cancel (cfg : Config) (taskId : String) (s : Store ν) : Option Bool × Store ν :=
  cancelTree cfg false taskId s

def terminate (cfg : Config) (taskId : String) (s : Store ν) : Option Bool × Store ν :=
  cancelTree cfg true taskId s

end

end Orditect.Orchestrator
