import Orditect.Support.Bracket
/-!
# The governed client

`GovernedClient.call`: cancellation check, budget check, `governor.acquire`, the check
again, the handler and the charge, then the shielded release.  The coroutine stands at its
next `await` or call of foreign code; what that call does is a choice of the environment,
and a hanging call is one that no choice is made for.
-/

namespace Orditect.Governor

open Support.Bracket

/-- The classes of exceptions the code tells apart. -/
inductive Raised where
  | exception
  | cancelled
  | generatorExit
  | other
  deriving DecidableEq

namespace Client

structure Config where
  handler : Bool
  cancelToken : Bool
  budget : Bool

/-- Where the call stands; `left` is the entry of the `finally` block, or the end of a call
that never got to its `try`. -/
inductive Pc (ρ : Type) where
  | enter
  | checkCancel
  | checkBudget
  | acquire
  | recheckCancel
  | handler
  | price (result : ρ)
  | charge (result : ρ) (cost : Int)
  | left (outcome : Except Raised (Option ρ))

structure State (ρ : Type) where
  pc : Pc ρ
  token : Option String
  charges : List Int

inductive Choice (ρ : Type) where
  | proceed
  | answer (cancelled : Bool)
  | granted (token : String)
  | returned (result : ρ)
  | priced (cost : Int)
  | raised (error : Raised)

variable {ρ : Type}

def Pc.isLeft : Pc ρ → Bool
  | .left _ => true
  | _ => false

def State.start : State ρ := ⟨.enter, none, []⟩

def afterCancel (cfg : Config) : Pc ρ := if cfg.budget then .checkBudget else .acquire

def next (cfg : Config) (s : State ρ) (choice : Choice ρ) : Option (State ρ) :=
  match s.pc, choice with
  | .enter, .proceed =>
    -- without a handler the call raises a `ValueError`
    some { s with
      pc := if !cfg.handler then .left (.error .exception)
        else if cfg.cancelToken then .checkCancel else afterCancel cfg }
  | .checkCancel, .answer cancelled =>
    some { s with pc := if cancelled then .left (.ok none) else afterCancel cfg }
  | .checkBudget, .proceed => some { s with pc := .acquire }
  | .acquire, .granted token =>
    some { s with
      token := some token
      pc := if cfg.cancelToken then .recheckCancel else .handler }
  | .recheckCancel, .answer cancelled =>
    some { s with pc := if cancelled then .left (.ok none) else .handler }
  | .handler, .returned result =>
    some { s with pc := if cfg.budget then .price result else .left (.ok (some result)) }
  | .price result, .priced cost => some { s with pc := .charge result cost }
  | .charge result cost, .proceed =>
    some { s with pc := .left (.ok (some result)), charges := s.charges ++ [cost] }
  | .left _, _ => none
  | _, .raised error => some { s with pc := .left (.error error) }
  | _, _ => none

/-- `call`: what was acquired is released under the shield, however the body ended. -/
def call (cfg : Config) : Coroutine (State ρ) (Choice ρ) String where
  step := next cfg
  left s := s.pc.isLeft
  owes s := s.token

end Client

end Orditect.Governor
