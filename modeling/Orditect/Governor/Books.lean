import Orditect.Governor.Streaming
/-!
# A streaming call and the ledger

What the ledger has recorded under the call id, next to the streaming call itself.  A charge
that raises has recorded nothing, and a charge whose reservation the quota rejects is only
logged: it returns as if it had been recorded.
-/

namespace Orditect.Governor.Books

open Support.LuaJson Governor.Streaming

variable {ρ ν : Type} [IntCast ν]

structure Entry where
  units : Int
  onError : Bool
  deriving DecidableEq

structure State (ρ ν : Type) where
  call : Streaming.State ρ ν
  recorded : List Entry

/-- `accepted` is read where a charge returns: the answer of the quota. -/
structure Event (ρ ν : Type) where
  choice : Choice ρ ν
  accepted : Bool

def State.start : State ρ ν := ⟨.start, []⟩

def atCharge : Pc ν → Bool
  | .charge | .salvageCharge => true
  | _ => false

def atPrice : Pc ν → Bool
  | .price | .salvagePrice => true
  | _ => false

def Choice.isProceed : Choice ρ ν → Bool
  | .proceed => true
  | _ => false

/-- A charge that returns, and was accepted, is recorded with the cost of the call; nothing
is recorded for a cost of nothing. -/
def booked (s : Streaming.State ρ ν) (e : Event ρ ν) : List Entry :=
  if atCharge s.pc && Choice.isProceed e.choice && e.accepted then
    (s.cost.filter fun units => 0 < units).toList.map fun units => ⟨units, s.error⟩
  else []

def step (cfg : Config) (s : State ρ ν) (e : Event ρ ν) : Option (State ρ ν) :=
  (next cfg s.call e.choice).map fun call => ⟨call, s.recorded ++ booked s.call e⟩

/-- The cost function always returns `cost`, and no coroutine is cancelled. -/
def Priced (cost : Int) (s : State ρ ν) (e : Event ρ ν) : Prop :=
  match e.choice with
  | .raised .cancelled => False
  | .raised _ => atPrice s.call.pc = false
  | .priced units => units = cost
  | _ => True

instance (cost : Int) (s : State ρ ν) (e : Event ρ ν) : Decidable (Priced cost s e) := by
  unfold Priced
  split <;> infer_instance

/-- An audit payload against the ledger: the units it reports are those recorded, and it says
so where they were recorded on the error path. -/
def Reconciled (recorded : List Entry) (payload : List (String × Json ν)) : Prop :=
  recorded.length ≤ 1 ∧
    payload.lookup "cost_units" =
      recorded.head?.map (fun entry => Json.num (entry.units : ν)) ∧
    ((payload.lookup "charged_on_error").isSome = true ↔
      ∃ entry ∈ recorded, entry.onError = true)

/-- No step drives the two apart.  A charge of an `except` clause is recorded.  A charge of
the normal path is recorded too, or it raises in a call with a `result_fn`, which then has
a result to charge for; and `payload_fn` returns neither of the two fields where the
audit does not set it. -/
def Steady (cfg : Config) (s : State ρ ν) (e : Event ρ ν) : Prop :=
  match s.call.pc, e.choice with
  | .charge, .proceed => e.accepted = true
  | .charge, .raised _ => cfg.resultFn = true
  | .salvageCharge, .proceed => e.accepted = true
  | .salvageCharge, .raised _ => False
  | .checkToken, .answer cancelled => s.call.cost.isSome = true → cancelled = false
  | .checkToken, .raised _ => s.call.cost = none
  | .salvageResult, .value result => s.call.cost.isSome = true → result.isSome = true
  | .salvageResult, .raised error =>
    s.call.cost.isSome = true → error = .exception ∧ s.call.result.isSome = true
  | .payload _, .fields d =>
    (s.call.cost = none → d.lookup "cost_units" = none) ∧
      ((s.call.error && s.call.cost.isSome) = false → d.lookup "charged_on_error" = none)
  | _, _ => True

instance (cfg : Config) (s : State ρ ν) (e : Event ρ ν) : Decidable (Steady cfg s e) := by
  unfold Steady
  split <;> infer_instance

end Orditect.Governor.Books
