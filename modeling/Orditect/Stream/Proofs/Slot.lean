import Orditect.Stream.Slot
/-!
# When a stage releases its slot

Every way out of the `try` block leads to the close of the pipeline with the token still
held and nothing released.  From there the release is started, unless something other than
an `Exception` leaves the close, or the token is the empty string.
-/

namespace Orditect.Stream.Slot.Proofs

open Support.Transition
open Governor (Raised)

variable {τ : Type} {cfg : Config τ} {s s' : State τ}

def due (token : Option String) : List String := (token.filter fun t => t != "").toList

def Kept (cfg : Config τ) (s : State τ) : Prop :=
  (s.token.isSome = true → cfg.governed = true) ∧
    match s.pc with
    | .acquire => s.token = none ∧ s.released = [] ∧ cfg.governed = true
    | .nextChunk | .onText _ _ | .onHit _ _ | .close _ => s.released = []
    | .release _ | .ended _ => s.released = due s.token

theorem kept_start (now : τ) : Kept cfg (start cfg now) := by
  unfold Kept start
  cases hgoverned : cfg.governed <;> simp

/-! ## The ways through a round -/

structure Inside (s s' : State τ) : Prop where
  token : s'.token = s.token
  released : s'.released = s.released
  pc : match s'.pc with
    | .nextChunk | .onText _ _ | .onHit _ _ | .close _ => True
    | _ => False

theorem inside_leave (pending : Pending) : Inside s (leave pending s) := ⟨rfl, rfl, trivial⟩

theorem inside_leaveLoop : Inside s (leaveLoop cfg s) := ⟨rfl, rfl, trivial⟩

theorem Kept.inside (h : Kept cfg s) (hreleased : s.released = []) (hin : Inside s s') :
    Kept cfg s' := by
  refine ⟨fun htoken => h.1 (hin.token ▸ htoken), ?_⟩
  have hnone : s'.released = [] := hin.released.trans hreleased
  have hpc := hin.pc
  split
  all_goals simp_all

theorem Kept.closed (h : Kept cfg s) (hreleased : s.released = []) (pending : Pending) :
    Kept cfg (closed cfg pending s) := by
  refine ⟨?_, ?_⟩
  · unfold Slot.closed
    split <;> exact h.1
  · unfold Slot.closed due
    cases htoken : s.token with
    | none => simp [hreleased]
    | some token =>
      have hgoverned : cfg.governed = true := h.1 (by simp [htoken])
      by_cases hempty : token = "" <;>
        simp [Option.filter_some, hempty, hgoverned, hreleased]

theorem Kept.ended (h : Kept cfg s) (hended : s.pc.isEnded = true) {token : String}
    (htoken : s.token = some token) : s.released = [token] ↔ token ≠ "" := by
  have hkept := h.2
  cases hpc : s.pc <;> simp [Pc.isEnded, hpc] at hended
  simp only [hpc, htoken, due, Option.filter_some] at hkept
  by_cases hempty : token = "" <;> simp [hkept, hempty]

section

variable [LinearOrder τ]

theorem inside_turn : Inside s (turn cfg s) := by
  unfold turn
  split
  · split
    · exact inside_leaveLoop
    · exact ⟨rfl, rfl, trivial⟩
  · exact ⟨rfl, rfl, trivial⟩

theorem inside_nextHit (finish : Bool) (hits : List MarkerHit) :
    Inside s (nextHit cfg finish s hits) := by
  cases hits with
  | nil =>
    simp only [nextHit]
    split
    · exact inside_leaveLoop
    · exact inside_turn
  | cons hit hits => exact ⟨rfl, rfl, trivial⟩

variable [Add τ]

theorem inside_receive (marked : MarkedChunk) : Inside s (receive cfg marked s) := by
  unfold receive
  split
  · exact ⟨inside_turn.token, inside_turn.released, inside_turn.pc⟩
  · split
    · exact ⟨rfl, rfl, trivial⟩
    · exact inside_nextHit _ _

/-! ## Steps -/

theorem Kept.raised (h : Kept cfg s) {error : Raised}
    (hescapes : escapes s (.proceed (.raised error)) = false)
    (hnext : next cfg s (.raised error) = some s') : Kept cfg s' := by
  cases hpc : s.pc with
  | acquire =>
    simp only [next, hpc, Option.some.injEq] at hnext
    subst hnext
    have hkept := h.2
    simp only [hpc] at hkept
    exact ⟨h.1, by simp [hkept, due]⟩
  | nextChunk | onText | onHit =>
    simp only [next, hpc, Option.some.injEq] at hnext
    subst hnext
    have hkept := h.2
    simp only [hpc] at hkept
    exact h.inside hkept (inside_leave _)
  | close pending =>
    obtain rfl : error = .exception := by simpa [escapes, hpc] using hescapes
    simp only [next, hpc, if_true, Option.some.injEq] at hnext
    subst hnext
    have hkept := h.2
    simp only [hpc] at hkept
    exact h.closed hkept pending
  | release pending =>
    simp only [next, hpc, Option.some.injEq] at hnext
    subst hnext
    have hkept := h.2
    simp only [hpc] at hkept
    exact ⟨h.1, hkept⟩
  | ended => simp [next, hpc] at hnext

theorem Kept.next (h : Kept cfg s) {choice : Choice}
    (hescapes : escapes s (.proceed choice) = false)
    (hnext : next cfg s choice = some s') : Kept cfg s' := by
  have hkept := h.2
  cases choice with
  | raised error => exact h.raised hescapes hnext
  | granted token =>
    cases hpc : s.pc <;> simp only [Slot.next, hpc, Option.some.injEq, reduceCtorEq] at hnext
    subst hnext
    simp only [hpc] at hkept
    exact ⟨fun _ => hkept.2.2, hkept.2.1⟩
  | chunk marked =>
    cases hpc : s.pc <;> simp only [Slot.next, hpc, Option.some.injEq, reduceCtorEq] at hnext
    subst hnext
    simp only [hpc] at hkept
    exact h.inside hkept (inside_receive marked)
  | exhausted =>
    cases hpc : s.pc <;> simp only [Slot.next, hpc, Option.some.injEq, reduceCtorEq] at hnext
    subst hnext
    simp only [hpc] at hkept
    exact h.inside hkept inside_leaveLoop
  | timedOut =>
    cases hpc : s.pc <;> cases hdeadline : s.drainDeadline <;>
      simp only [Slot.next, hpc, hdeadline, Option.some.injEq, reduceCtorEq] at hnext
    subst hnext
    simp only [hpc] at hkept
    exact h.inside hkept inside_leaveLoop
  | done =>
    cases hpc : s.pc <;> simp only [Slot.next, hpc, Option.some.injEq, reduceCtorEq] at hnext
    all_goals subst hnext; simp only [hpc] at hkept
    · exact h.inside hkept (inside_nextHit _ _)
    · exact h.inside hkept (inside_nextHit _ _)
    · exact h.closed hkept _
    · exact ⟨h.1, hkept⟩

theorem Kept.step (h : Kept cfg s) {e : Event τ} (hescapes : escapes s e = false)
    (hstep : step cfg s e = some s') : Kept cfg s' := by
  cases e with
  | proceed choice => exact h.next hescapes hstep
  | cancel =>
    obtain rfl := Option.some.inj hstep
    exact h
  | advance now =>
    simp only [Slot.step, Option.ite_none_right_eq_some, Option.some.injEq] at hstep
    obtain ⟨-, rfl⟩ := hstep
    exact h

theorem Kept.escaped (h : Kept cfg s) {e : Event τ} (hescapes : escapes s e = true)
    (hstep : Slot.step cfg s e = some s') : s'.pc.isEnded = true ∧ s'.released = [] := by
  have hkept := h.2
  cases e with
  | cancel | advance => simp [escapes] at hescapes
  | proceed choice =>
    cases choice with
    | raised error =>
      cases hpc : s.pc with
      | close pending =>
        have herror : error ≠ .exception := by simpa [escapes, hpc] using hescapes
        simp only [Slot.step, Slot.next, hpc, herror, if_false, Option.some.injEq] at hstep
        subst hstep
        simp only [hpc] at hkept
        exact ⟨rfl, hkept⟩
      | _ => simp [escapes, hpc] at hescapes
    | _ => simp [escapes] at hescapes

theorem ended_step (hended : s.pc.isEnded = true) {e : Event τ}
    (hstep : step cfg s e = some s') : s'.pc.isEnded = true ∧ s'.released = s.released := by
  cases e with
  | proceed choice =>
    cases hpc : s.pc <;> simp [Pc.isEnded, hpc] at hended
    cases choice <;> simp [Slot.step, next, hpc] at hstep
  | cancel =>
    obtain rfl := Option.some.inj hstep
    exact ⟨hended, rfl⟩
  | advance now =>
    simp only [Slot.step, Option.ite_none_right_eq_some, Option.some.injEq] at hstep
    obtain ⟨-, rfl⟩ := hstep
    exact ⟨hended, rfl⟩

/-! ## Whole runs -/

/-- A stage that has ended after `governor.acquire` returned a token has started the release
of that token exactly once if and only if the token is not the empty string and nothing but
an `Exception` left the close of the pipeline. -/
theorem stage_release_iff (cfg : Config τ) (now : τ) (es : List (Event τ)) {s : State τ}
    {token : String} (hrun : run (step cfg) (start cfg now) es = some s)
    (hended : s.pc.isEnded = true) (htoken : s.token = some token) :
    s.released = [token] ↔
      token ≠ "" ∧ Along (step cfg) (fun u e => escapes u e = false) (start cfg now) es := by
  have hkept : Kept cfg (start cfg now) := kept_start now
  generalize start cfg now = u at *
  induction es generalizing u with
  | nil =>
    obtain rfl : u = s := by simpa using hrun
    simp [Along, hkept.ended hended htoken]
  | cons e es ih =>
    obtain ⟨u', hstep, hrest⟩ := run_cons_eq_some.mp hrun
    cases hescapes : escapes u e with
    | false =>
      refine (ih u' hrest (hkept.step hescapes hstep)).trans (and_congr_right fun _ => ?_)
      refine ⟨fun h => ⟨hescapes, fun v hv => ?_⟩, fun h => h.2 u' hstep⟩
      obtain rfl := Option.some.inj (hstep.symm.trans hv)
      exact h
    | true =>
      have hnone := run_invariant
        (I := fun v : State τ => v.pc.isEnded = true ∧ v.released = [])
        (fun v e v' hv hse => ⟨(ended_step hv.1 hse).1, (ended_step hv.1 hse).2.trans hv.2⟩)
        (hkept.escaped hescapes hstep) hrest
      refine ⟨fun h => ?_, fun h => ?_⟩
      · simp [hnone.2] at h
      · exact absurd (hescapes.symm.trans h.2.1) (by simp)

end

private def governed : Config Nat := ⟨true, 5, []⟩

private def cancelledTwice (token : String) : List (Event Nat) :=
  [.proceed (.granted token), .proceed (.chunk { text := some ['a'] }),
    .proceed (.raised .cancelled), .proceed .done, .proceed (.raised .cancelled)]

theorem stage_release_cancelled :
    (replay (step governed) (start governed 0) (cancelledTwice "t")).released = ["t"] :=
  (stage_release_iff governed 0 (cancelledTwice "t") (run_eq_replay (by decide)) (by decide)
    (by decide)).mpr (by decide)

private def plainRun (token : String) : List (Event Nat) :=
  [.proceed (.granted token), .proceed (.chunk { text := some ['a'] }), .proceed .done,
    .proceed .exhausted, .proceed .done]

/-- A slot whose token is the empty string is kept for good. -/
theorem stage_keeps_slot :
    ∃ s, run (step governed) (start governed 0) (plainRun "") = some s ∧
      s.pc.isEnded = true ∧ s.token = some "" ∧ s.released = [] :=
  ⟨replay (step governed) (start governed 0) (plainRun ""), run_eq_replay (by decide),
    by decide, by decide, by decide⟩

end Orditect.Stream.Slot.Proofs
