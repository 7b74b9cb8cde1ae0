import Orditect.Executor.Proofs.Hooks
/-!
# What a forced termination promises

`_terminate_single` sets the flag and then either cancels the local coroutine, without waiting
for it, or writes `cancelled` itself.  Its `True` is kept when the flag was there before
`execute` looked at it for the last time and the cancellation is not delivered to a handler
that has not captured the generation yet: from the return on, the record is cancelled or the
call of `execute` can only go on to cancel it.
-/

namespace Orditect.Executor.Proofs

open Session Support.LuaJson Support.Transition
open TaskStore (Store field)

variable {ν : Type}

def requested : Handle → Bool
  | .forceCancel | .transitionRead true | .transitionWrite true | .confirm true
  | .returned true true => true
  | _ => false

/-- `execute` has looked at the flag for the last time, and a terminal status other than
`cancelled` is what it writes next. -/
def decided : Pc ν → Bool
  | .writeSucceeded _ | .finalizeFailed _ => true
  | _ => false

def closing : Pc ν → Bool
  | .readSnapshot shielded request => shielded || request.terminal
  | .writeSnapshot shielded row => shielded || row.terminal
  | .hook _ => true
  | _ => false

/-- With the flag set, whatever comes next ends in `cancelled`. -/
def cancelsNext : Pc ν → Bool
  | .body | .checkCancelAfter _ | .settleCancelled | .captureGeneration | .finalizeCancel _
  | .finalizeSettle _ _ | .finalizeFailure _ _ => true
  | _ => false

def Doomed (s : Session.State ν) : Prop :=
  ∃ x, s.execution = some x ∧ (cancelsNext x.pc = true ∨
    s.cancelling = true ∧ x.attached = true ∧ x.pc.shielded = false)

structure Terminating (s : Session.State ν) (w : TaskStatus) (flag : Bool) : Prop where
  flagged : ∀ h ∈ s.handles, requested h = true →
    flag = true ∧ Undecided w ∧ ∀ x, s.execution = some x → decided x.pc = false
  detached : ∀ x, s.execution = some x → x.pc.isFinished = true → x.attached = false
  settled : ∀ x, s.execution = some x → closing x.pc = true → w.isTerminal = true
  kept : .returned true true ∈ s.handles → w = .cancelled ∨ Doomed s

variable {x : Execution ν}

section

variable {w w' : TaskStatus} {flag flag' : Bool} {pc : Pc ν} {s s' : Session.State ν}

/-! ## The program counter -/

theorem not_decided_early (hpc : early pc = true) : decided pc = false := by
  cases pc <;> simp_all [early, decided]

theorem shielded_cases (h : pc.shielded = true) :
    cancelsNext pc = true ∨ decided pc = true ∨ closing pc = true := by
  cases pc with
  | readSnapshot shielded request | writeSnapshot shielded row
  | hook shielded => exact Or.inr (Or.inr (by simp_all [Pc.shielded, closing]))
  | finalizeFailed error => exact Or.inr (Or.inl rfl)
  | finalizeFailure error outcome | finalizeSettle error outcome
  | finalizeCancel id => exact Or.inl rfl
  | _ => simp [Pc.shielded] at h

theorem terminating_interferes (h : Terminating s w flag) (hw : Interferes w w')
    (hexecution : s'.execution = s.execution)
    (hcancelling : s.cancelling = true → s'.cancelling = true)
    (hrequested : ∀ h ∈ s'.handles, requested h = true →
      flag' = true ∧ Undecided w ∧ ∀ x, s.execution = some x → decided x.pc = false)
    (hreturned : .returned true true ∈ s'.handles →
      .returned true true ∈ s.handles ∨ w' = .cancelled ∨ Doomed s') :
    Terminating s' w' flag' := by
  constructor
  · intro handle hmem hreq
    obtain ⟨hflag, hopen, hpc⟩ := hrequested handle hmem hreq
    rw [hexecution]
    exact ⟨hflag, hopen.interferes hw, hpc⟩
  · rw [hexecution]
    exact h.detached
  · rw [hexecution]
    intro x hx hclosing
    rcases hw with rfl | ⟨-, rfl⟩
    · exact h.settled x hx hclosing
    · rfl
  · intro hmem
    rcases hreturned hmem with hold | hnew
    · rcases h.kept hold with rfl | ⟨x, hx, hdoom⟩
      · rcases hw with rfl | ⟨hopen, -⟩
        · exact Or.inl rfl
        · simp [TaskStatus.isTerminal] at hopen
      · right
        exact ⟨x, hexecution.trans hx, hdoom.imp_right (And.imp_left hcancelling)⟩
    · exact hnew

theorem Terminating.quiet (h : Terminating s w flag) (hexecution : s'.execution = s.execution)
    (hcancelling : s.cancelling = true → s'.cancelling = true)
    (hhandles : ∀ h ∈ s'.handles, requested h = true → h ∈ s.handles) :
    Terminating s' w flag := by
  apply terminating_interferes h (Or.inl rfl) hexecution hcancelling
  · intro handle hmem hreq
    exact h.flagged handle (hhandles handle hmem hreq) hreq
  · intro hmem
    exact Or.inl (hhandles _ hmem rfl)

variable {cancels : Bool} {handle handle' : Handle}

theorem Terminating.forces (h : Terminating s w flag) (hmem : .forceCancel ∈ s.handles)
    (hrunning : running s = true) (hexecution : s'.execution = s.execution)
    (hcancelling : s'.cancelling = true) : w = .cancelled ∨ Doomed s' := by
  obtain ⟨-, hopen, hundecided⟩ := h.flagged _ hmem rfl
  unfold running at hrunning
  split at hrunning
  · rename_i x hx
    have hattached : x.attached = true := (Bool.and_eq_true_iff.mp hrunning).2
    cases hshielded : x.pc.shielded with
    | false => exact Or.inr ⟨x, hexecution.trans hx, Or.inr ⟨hcancelling, hattached, hshielded⟩⟩
    | true =>
      rcases shielded_cases hshielded with hnext | hdecided | hclosing
      · exact Or.inr ⟨x, hexecution.trans hx, Or.inl hnext⟩
      · simp [hundecided x hx] at hdecided
      · exact Or.inl (hopen.cancelled_of_terminal (h.settled x hx hclosing))
  · simp at hrunning

/-- The condition on a step: a forced termination sets the flag before `execute` has looked at
it for the last time and before the record has succeeded or failed, and no cancellation is
delivered while the generation of an open record is captured. -/
def inTime (cfg : Config) (s : Session.State ν) : Session.Event ν → Bool
  | .handle i =>
    match s.handles[i]? with
    | some (.requestWrite true) =>
      undecided cfg s.store && s.execution.all fun x => !decided x.pc
    | _ => true
  | .interrupt _ => ended cfg s.store || s.execution.all fun x => !x.pc.isCapture
  | _ => true

end

section

variable [DecidableEq ν] [LuaNumber ν] {cfg : Config} {eid : String} {w w' : TaskStatus}
  {flag flag' : Bool}

section

variable {pc pc' : Pc ν} {row : Option (SnapshotRow ν)} {s : Store ν}

/-! ## One `await` -/

theorem Turn.status_eq (hturn : Turn cfg s w flag pc pc' w' row) (hw : w.isTerminal = true) :
    w' = w := by
  have hsettled : TaskStatus.settled w = w := by simp [TaskStatus.settled, hw]
  cases hturn with
  | runs h | succeeds result h | fails error h =>
    rcases h with rfl | hopen
    · rfl
    · simp [hw] at hopen
  | settles | failureSettles error outcome | cancels id => exact hsettled
  | _ => rfl

theorem Turn.undecided (hturn : Turn cfg s w true pc pc' w' row) (hw : Undecided w)
    (hpc : decided pc = false) : Undecided w' ∧ decided pc' = false := by
  have hcancelled : Undecided TaskStatus.cancelled := by simp [Undecided]
  cases hturn with
  | early h h' => exact ⟨hw, not_decided_early h'⟩
  | runs h => exact ⟨by simp [Undecided], rfl⟩
  | saves shielded row saved hsaved =>
    unfold afterSnapshot
    split <;> exact ⟨hw, rfl⟩
  | passes result hflag => simp at hflag
  | settles =>
    rw [hw.settled]
    exact ⟨hcancelled, rfl⟩
  | succeeds result h => simp [decided] at hpc
  | failureUnflagged error outcome hflag => simp at hflag
  | failureSettles error outcome =>
    rw [hw.settled]
    exact ⟨hcancelled, rfl⟩
  | fails error h => simp [decided] at hpc
  | cancels id =>
    rw [hw.settled]
    exact ⟨hcancelled, rfl⟩
  | _ => exact ⟨hw, rfl⟩

end

/-! ## One event -/

variable {s s' : Session.State ν} {e : Session.Event ν}

variable {effect : Effect ν}

end

end Orditect.Executor.Proofs
