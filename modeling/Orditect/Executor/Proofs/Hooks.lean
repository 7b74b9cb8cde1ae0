import Orditect.Executor.Proofs.Session
/-!
# One outcome hook for each execution

A finalisation writes the record first and calls its hook last.  A cancellation that is
delivered in between starts a second finalisation with a hook of its own, and one that is
delivered while the handler still captures the generation leaves no finalisation at all;
between the other awaits exactly one hook is called, and it is the one of the final status.
-/

namespace Orditect.Executor.Proofs

open Session Support.Transition Support.LuaJson
open TaskStore (Store field)

variable {ν : Type}

variable {w w' : TaskStatus} {s' : Session.State ν}

/-- No hook was called before the last await, and a terminal snapshot has the status of the
record; afterwards one was called, the one of that status. -/
def HookOk (w : TaskStatus) (hooks : List Hook) : Pc ν → Prop
  | .readSnapshot _ request =>
    hooks = [] ∧ if request.terminal then w = request.status ∧ w.isTerminal = true
      else Undecided w
  | .writeSnapshot _ row =>
    hooks = [] ∧ if row.terminal then w = row.status ∧ w.isTerminal = true else Undecided w
  | .hook _ | .finished => ∃ hook, hooks = [hook] ∧ w = hook.outcome
  | _ => hooks = [] ∧ Undecided w

variable {hooks : List Hook} {pc : Pc ν} {s : Session.State ν}

theorem HookOk.interferes (h : HookOk w hooks pc) (hw : Interferes w w') :
    HookOk w' hooks pc := by
  have hterminal : ∀ {v : TaskStatus}, w = v ∧ w.isTerminal = true →
      w' = v ∧ w'.isTerminal = true := by
    intro v hv
    rcases hw with rfl | ⟨hopen, -⟩
    · exact hv
    · simp [hv.2] at hopen
  have hended : (∃ hook : Hook, hooks = [hook] ∧ w = hook.outcome) →
      ∃ hook : Hook, hooks = [hook] ∧ w' = hook.outcome := by
    rintro ⟨hook, hhooks, hout⟩
    refine ⟨hook, hhooks, (hterminal ⟨hout, ?_⟩).1⟩
    rw [hout]
    cases hook <;> rfl
  cases pc with
  | readSnapshot shielded request | writeSnapshot shielded row =>
    refine ⟨h.1, ?_⟩
    have h2 := h.2
    split at h2
    · rw [if_pos ‹_›]
      exact hterminal h2
    · rw [if_neg ‹_›]
      exact h2.interferes hw
  | hook shielded | finished => exact hended h
  | _ => exact ⟨h.1, h.2.interferes hw⟩

def interruptible : Pc ν → Bool
  | .captureGeneration | .hook false => false
  | .readSnapshot false request => !request.terminal
  | .writeSnapshot false row => !row.terminal
  | _ => true

theorem HookOk.interrupted (h : HookOk w hooks pc) (hpc : interruptible pc = true) :
    HookOk w hooks pc.interrupted := by
  cases pc with
  | captureGeneration => simp [interruptible] at hpc
  | readSnapshot shielded request =>
    cases shielded with
    | true => exact h
    | false =>
      have hrunning : request.terminal = false := by simpa [interruptible] using hpc
      exact ⟨h.1, by simpa [hrunning] using h.2⟩
  | writeSnapshot shielded row =>
    cases shielded with
    | true => exact h
    | false =>
      have hrunning : row.terminal = false := by simpa [interruptible] using hpc
      exact ⟨h.1, by simpa [hrunning] using h.2⟩
  | hook shielded =>
    cases shielded with
    | true => exact h
    | false => simp [interruptible] at hpc
  | _ => exact h

def HooksOk (s : Session.State ν) (w : TaskStatus) : Prop :=
  s.execution.elim (s.hooks = []) fun x => HookOk w s.hooks x.pc

theorem HooksOk.interferes (h : HooksOk s w) (hw : Interferes w w')
    (hexecution : s'.execution = s.execution) (hhooks : s'.hooks = s.hooks) :
    HooksOk s' w' := by
  unfold HooksOk at h ⊢
  rw [hexecution, hhooks]
  cases hx : s.execution with
  | none =>
    rw [hx] at h
    exact h
  | some x =>
    rw [hx] at h
    exact HookOk.interferes h hw

section

variable [DecidableEq ν] [LuaNumber ν] {cfg : Config} {eid : String} {w w' : TaskStatus}
  {flag : Bool}

variable {pc' : Pc ν} {row : Option (SnapshotRow ν)}

end

end Orditect.Executor.Proofs
