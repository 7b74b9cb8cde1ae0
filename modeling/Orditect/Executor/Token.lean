import Mathlib.Algebra.Order.Group.Basic
import Orditect.Executor.Execute
/-!
# Polls of a cancellation token

`CancellationToken` of `core/task/cancel.py`, polled by the execution of one generation of a
task, next to the clients of the task store.  A poll answers from the token's cache, or asks
the store: the server reads the record, and the reply is cached with the time it arrives at.
Any number of polls may be on their way at once.
-/

namespace Orditect.Executor.Token

open Support.LuaJson
open TaskStore (Store Call getTask field perform)

variable {ν τ : Type} [DecidableEq ν] [LuaNumber ν] [AddCommGroup τ] [LinearOrder τ]

structure Params (τ : Type) where
  taskId : String
  executionId : String
  minInterval : τ

/-- A call of `is_cancelled` that has asked the store: whether it has to notice the
cancellation, and what the server has read for it. -/
structure Poll where
  due : Bool
  read : Option Bool

structure Answer where
  due : Bool
  result : Bool
  deriving DecidableEq

/-- `cached` holds `_cached_result` and `_cached_at`.  `setAt` is the time at which the flag
was first seen set in a record of the generation. -/
structure State (ν τ : Type) where
  base : TaskStore.State ν
  clock : τ
  cached : Option (Bool × τ)
  polls : Nat → Option Poll
  setAt : Option τ
  answers : List Answer

inductive Event (ν τ : Type) where
  | store (e : TaskStore.Event ν)
  | requestCancel (client : Nat)
  | wait (clock : τ)
  | isCancelled (poll : Nat)
  | read (poll : Nat)
  | reply (poll : Nat)
  | fail (poll : Nat)

def start (now : Nat) (clock : τ) : State ν τ :=
  ⟨TaskStore.start now, clock, none, fun _ => none, none, []⟩

def flagged (p : Params τ) (s : Store ν) : Bool := truthy (field s p.taskId "cancel_requested")

def cancelled (p : Params τ) (s : Store ν) : Bool :=
  match field s p.taskId "execution_id" with
  | some (.str executionId) => executionId == p.executionId && flagged p s
  | _ => false

def mark (p : Params τ) (s : State ν τ) : State ν τ :=
  { s with setAt := s.setAt.or (if cancelled p s.base.store then some s.clock else none) }

def due (p : Params τ) (s : State ν τ) : Bool :=
  s.setAt.any fun setAt => decide (setAt + p.minInterval ≤ s.clock)

def fresh (p : Params τ) (s : State ν τ) : Option Bool :=
  match s.cached with
  | some (result, cachedAt) =>
    if 0 < p.minInterval ∧ s.clock - cachedAt < p.minInterval then some result else none
  | none => none

def cancelRequest : Fields ν :=
  let updates : Fields ν := fun _ => none
  updates.set "cancel_requested" (.bool true)

def step (cfg : TaskStore.Config) (p : Params τ) (s : State ν τ) : Event ν τ → Option (State ν τ)
  | .store e => (TaskStore.step cfg s.base e).map fun base => mark p { s with base := base }
  | .requestCancel client =>
    if (getTask p.taskId s.base.store).isSome then
      (TaskStore.begin client (.updateTask p.taskId cancelRequest none) s.base).map fun base =>
        { s with base := base }
    else some s
  | .wait clock => if s.clock ≤ clock then some { s with clock := clock } else none
  | .isCancelled poll =>
    match s.polls poll, fresh p s with
    | some _, _ => none
    | none, some result => some { s with answers := s.answers ++ [⟨due p s, result⟩] }
    | none, none =>
      some { s with polls := Function.update s.polls poll (some ⟨due p s, none⟩) }
  | .read poll =>
    match s.polls poll with
    | some ⟨due, none⟩ =>
      some { s with
        polls := Function.update s.polls poll (some ⟨due, some (flagged p s.base.store)⟩) }
    | _ => none
  | .reply poll =>
    match s.polls poll with
    | some ⟨due, some result⟩ =>
      some { s with
        cached := if 0 < p.minInterval then some (result, s.clock) else s.cached
        polls := Function.update s.polls poll none
        answers := s.answers ++ [⟨due, result⟩] }
    | _ => none
  -- `get_task` raises
  | .fail poll =>
    match s.polls poll with
    | some _ => some { s with polls := Function.update s.polls poll none }
    | none => none

/-! ## What lets a poll miss the cancellation -/

def Exists (p : Params τ) (s : State ν τ) (_ : Event ν τ) : Prop :=
  s.setAt.isSome = true → (getTask p.taskId s.base.store).isSome = true

instance (p : Params τ) (s : State ν τ) (e : Event ν τ) : Decidable (Exists p s e) :=
  inferInstanceAs (Decidable (_ → _))

/-- The script of the call takes the flag out of the record. -/
def lowers (cfg : TaskStore.Config) (p : Params τ) (s : Store ν) (call : Call ν) : Bool :=
  let next := (perform cfg s call).2
  flagged p s && (getTask p.taskId next).isSome && !flagged p next

/-- Once the flag was set no script takes it back, and no reply that was read before arrives
later and is cached. -/
def Heeded (cfg : TaskStore.Config) (p : Params τ) (s : State ν τ) : Event ν τ → Prop
  | .store (.proceed client) =>
    s.setAt.isSome = true →
      (s.base.calls client).all (fun call => !lowers cfg p s.base.store call)
  | .reply poll =>
    0 < p.minInterval → (s.polls poll).any (fun poll => poll.read == some false) = true →
      ∀ setAt ∈ s.setAt, s.clock ≤ setAt
  | _ => True

instance (cfg : TaskStore.Config) (p : Params τ) (s : State ν τ) (e : Event ν τ) :
    Decidable (Heeded cfg p s e) := by
  unfold Heeded
  split <;> infer_instance

end Orditect.Executor.Token
