import Orditect.Support.Bracket
import Orditect.Executor.System
/-!
# The slot of an execution

One call of `execute` with the token that `governor.acquire` returned to it: when the call
leaves its `try` statement, on whichever way, the `finally` block starts the release under
the shield.  What the other coroutines do to the task store meanwhile is left open.
-/

namespace Orditect.Executor.Slot

open Support.Bracket Support.LuaJson
open TaskStore (Store)

/-- `inherited`: the resource is that of an ancestor. -/
structure Body (ν : Type) where
  execution : Execution ν
  store : Store ν
  token : Option String
  inherited : Bool

/-- `granted`: `governor.acquire` returns.  `escape`: an exception is raised that no `except`
clause catches, or none of them gets to catch.  `others`: what else happens to the store. -/
inductive Event (ν : Type) where
  | granted (token : String)
  | proceed (choice : Choice ν)
  | escape
  | others (store : Store ν)

section

variable {ν : Type} [DecidableEq ν] [LuaNumber ν]

def Body.start (birth : String) (here timed : Bool) (store : Store ν) : Body ν :=
  ⟨⟨birth, here, timed, true, .checkCancel⟩, store, none, false⟩

def inherits : Pc ν → Pc ν → Bool
  | .readExemption, .writeRunning | .walkAncestors, .writeRunning => true
  | _, _ => false

def Body.proceed (cfg : Config) (choice : Choice ν) (b : Body ν) : Option (Body ν) :=
  (b.execution.next cfg b.store choice).map fun (x, e) =>
    { b with
      execution := x
      store := e.store
      inherited := b.inherited || inherits b.execution.pc x.pc }

def Body.step (cfg : Config) (b : Body ν) : Event ν → Option (Body ν)
  | .granted token =>
    match b.execution.pc with
    | .acquire => (b.proceed cfg .proceed).map fun b => { b with token := some token }
    | _ => none
  | .proceed choice =>
    match b.execution.pc, choice with
    | .acquire, .proceed => none
    | _, _ => b.proceed cfg choice
  | .escape =>
    if b.execution.attached then
      some { b with execution := { b.execution with pc := .finished, attached := false } }
    else none
  | .others store => some { b with store := store }

/-- `execute`; the test before the release is `self.governor and token and not inherited`. -/
def execute (cfg : Config) : Coroutine (Body ν) (Event ν) String where
  step b e := b.step cfg e
  left b := !b.execution.attached
  owes b := b.token.filter fun token => cfg.governor && token != "" && !b.inherited

end

end Orditect.Executor.Slot
