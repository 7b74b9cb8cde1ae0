import Orditect.Executor.Execute
import Orditect.Support.Loop
/-!
# The resolver of a manifest

`ManifestResolver.resolve_all` polls with one coroutine for each pending placeholder.  What a
coroutine meets, its readings of the clock and the answers to its queries, are sequences of its
own, so that every interleaving is covered.
-/

namespace Orditect.Stream.Resolver

open Executor (truthy)
open Support.Loop Support.LuaJson

/-- `query` says whether there is a query function. -/
structure ManifestResolver (τ : Type) where
  query : Bool
  maxWait : τ
  successWords : List String := ["succeeded"]
  terminalWords : List String := ["succeeded", "failed", "cancelled"]

structure Placeholder where
  placeholderId : String
  state : String
  taskRef : String

inductive Answer (ν : Type) where
  | raises (caught : Bool)
  | missing
  | task (status : String) (result : Json ν)

structure Env (τ ν : Type) [Preorder τ] where
  time : Nat → τ
  answer : Nat → Answer ν
  monotone : Monotone time
  advances : ∀ t, ∃ n, t ≤ time n

inductive Outcome (ν : Type) where
  | url (value : Json ν)
  | continues
  | failed
  | raises

variable {τ ν : Type} [LinearOrder τ] [Add τ] [DecidableEq ν] [LuaNumber ν]

def urlOf (fields : List (String × Json ν)) : Outcome ν :=
  let get key := (fields.lookup key).filter fun value => truthy (some value)
  match (get "url").or (get "image_oss") with
  | some value => .url value
  | none => .failed

def ManifestResolver.queries (r : ManifestResolver τ) (taskRef : String) : Bool :=
  "tf:".toList.isPrefixOf taskRef.toList && r.query

def queryOnce (r : ManifestResolver τ) (taskRef : String) (answer : Answer ν) : Outcome ν :=
  if r.queries taskRef then
    match answer with
    | .raises caught => if caught then .continues else .raises
    | .missing => .continues
    | .task status result =>
      if status ∈ r.successWords then
        match result with
        | .obj fields => urlOf fields
        -- only a false value is replaced by a dictionary, and nothing else has a `get`
        | result => if truthy (some result) then .raises else .failed
      else if status ∈ r.terminalWords then .failed
      else .continues
  else .failed

variable (r : ManifestResolver τ) (p : Placeholder × Env τ ν)

def before (n : Nat) : Bool := p.2.time (n + 1) < p.2.time 0 + r.maxWait

def queried (n : Nat) : Outcome ν := queryOnce r p.1.taskRef (p.2.answer n)

/-- The rounds of the loop of `_poll_task` that come to its `continue`. -/
def again (n : Nat) : Option Nat :=
  match before r p n, queried r p n with
  | true, .continues => some (n + 1)
  | _, _ => none

def pollTask (fuel : Nat) : Option (Outcome ν) :=
  (loop (again r p) fuel 0).map fun n => if before r p n then queried r p n else .failed

/-- The call of the callback in `_resolve_one`, unless the polling raised. -/
def resolveOne : Outcome ν → Except Unit (String × Option (Json ν))
  | .raises => .error ()
  | .url value => .ok (p.1.placeholderId, some value)
  | .continues | .failed => .ok (p.1.placeholderId, none)

/-- `asyncio.gather` raises if one of the coroutines does; otherwise all of them have made their
call, given in the order of the placeholders. -/
def gather (fuel : Nat) :
    List (Placeholder × Env τ ν) → Option (Except Unit (List (String × Option (Json ν))))
  | [] => some (.ok [])
  | p :: ps =>
    match pollTask r p fuel, gather fuel ps with
    | some outcome, some calls => some (do return (← resolveOne p outcome) :: (← calls))
    | _, _ => none

def pendings (placeholders : List (Placeholder × Env τ ν)) : List (Placeholder × Env τ ν) :=
  placeholders.filter fun p => p.1.state == "pending"

def resolveAll (fuel : Nat) (placeholders : List (Placeholder × Env τ ν)) :
    Option (Except Unit (List (String × Option (Json ν)))) :=
  gather r fuel (pendings placeholders)

end Orditect.Stream.Resolver
