import Orditect.Support.Transition
/-!
# A body and its shielded clean-up

A coroutine runs a body, given by a guarded step function of its own.  When the body is
over it may owe a clean-up: a task that it starts and then awaits behind a shield, so that
a cancellation ends the wait and not the task.  Nothing here depends on a particular
program.
-/

namespace Orditect.Support.Bracket

open Support.Transition

variable {β ε τ : Type*}

/-- `owes` is read once the body is over: what its clean-up is for, if there is one. -/
structure Coroutine (β ε τ : Type*) where
  step : β → ε → Option β
  left : β → Bool
  owes : β → Option τ

/-- The task of the clean-up. -/
inductive Cleanup where
  | absent
  | running
  | ended
  deriving DecidableEq

/-- `started` lists what a clean-up has been started for; `returned` says whether the
coroutine has ended. -/
structure State (β τ : Type*) where
  body : β
  cleanup : Cleanup
  started : List τ
  returned : Bool

/-- A step of the body, the end of the clean-up, or a cancellation of the wait for it. -/
inductive Event (ε : Type*) where
  | body (event : ε)
  | finish
  | interrupt
  deriving DecidableEq

def Coroutine.settle (B : Coroutine β ε τ) (s : State β τ) (body : β) : State β τ :=
  if B.left body then
    match B.owes body with
    | some t => ⟨body, .running, t :: s.started, false⟩
    | none => ⟨body, s.cleanup, s.started, true⟩
  else { s with body := body }

def Coroutine.start (b : β) : State β τ := ⟨b, .absent, [], false⟩

def Coroutine.next (B : Coroutine β ε τ) (s : State β τ) : Event ε → Option (State β τ)
  | .body e => if B.left s.body then none else (B.step s.body e).map (B.settle s)
  | .finish =>
    if s.cleanup = .running then some { s with cleanup := .ended, returned := true } else none
  | .interrupt =>
    if s.cleanup = .running ∧ s.returned = false then some { s with returned := true } else none

/-- What holds of every state of a bracketed run. -/
structure Settled (B : Coroutine β ε τ) (s : State β τ) : Prop where
  inside : B.left s.body = false → s.cleanup = .absent ∧ s.started = [] ∧ s.returned = false
  owed : ∀ t, B.left s.body = true → B.owes s.body = some t →
    s.started = [t] ∧ s.cleanup ≠ .absent
  free : B.left s.body = true → B.owes s.body = none → s.started = [] ∧ s.cleanup = .absent ∧
    s.returned = true
  waited : s.cleanup = .ended → s.returned = true

variable {B : Coroutine β ε τ} {b : β} {s s' : State β τ}

theorem settled_start (hb : B.left b = false) : Settled B (Coroutine.start b) where
  inside _ := ⟨rfl, rfl, rfl⟩
  owed t hleft := by simp [Coroutine.start, hb] at hleft
  free hleft := by simp [Coroutine.start, hb] at hleft
  waited hended := by simp [Coroutine.start] at hended

@[simp] theorem body_settle (body : β) : (B.settle s body).body = body := by
  unfold Coroutine.settle
  split
  · split <;> rfl
  · rfl

theorem Settled.settle (h : Settled B s) (hs : B.left s.body = false) (body : β) :
    Settled B (B.settle s body) := by
  obtain ⟨habsent, hstarted, hreturned⟩ := h.inside hs
  unfold Coroutine.settle
  split
  · rename_i hleft
    split
    · rename_i t howes
      refine ⟨by simp [hleft], fun u _ hu => ?_, by simp [howes], by simp⟩
      have htu : t = u := by simpa [howes] using hu
      simp [htu, hstarted]
    · rename_i howes
      exact ⟨by simp [hleft], by simp [howes], by simp [habsent, hstarted], by simp⟩
  · rename_i hleft
    exact ⟨fun _ => ⟨habsent, hstarted, hreturned⟩, fun _ hleft' => absurd hleft' hleft,
      fun hleft' => absurd hleft' hleft, by simp [habsent]⟩

/-- Once a clean-up runs, the state changes only in how far the coroutine and the clean-up
have come. -/
theorem Settled.of_running (h : Settled B s) (hrunning : s.cleanup = .running)
    {cleanup : Cleanup} (hcleanup : cleanup ≠ .absent) :
    Settled B { s with cleanup := cleanup, returned := true } where
  inside hs := absurd (h.inside hs).1 (by simp [hrunning])
  owed t hleft howes := ⟨(h.owed t hleft howes).1, hcleanup⟩
  free hleft howes := absurd (h.free hleft howes).2.1 (by simp [hrunning])
  waited _ := rfl

theorem settled_next {e : Event ε} (h : Settled B s) (hstep : B.next s e = some s') :
    Settled B s' := by
  cases e with
  | body e =>
    simp only [Coroutine.next, Option.ite_none_left_eq_some, Option.map_eq_some_iff] at hstep
    obtain ⟨hs, body, -, rfl⟩ := hstep
    exact h.settle (by simpa using hs) body
  | finish =>
    simp only [Coroutine.next, Option.ite_none_right_eq_some, Option.some.injEq] at hstep
    obtain ⟨hrunning, rfl⟩ := hstep
    exact h.of_running hrunning (by simp)
  | interrupt =>
    simp only [Coroutine.next, Option.ite_none_right_eq_some, Option.some.injEq] at hstep
    obtain ⟨⟨hrunning, -⟩, rfl⟩ := hstep
    exact h.of_running hrunning (by simp [hrunning])

theorem settled_run {es : List (Event ε)} (hb : B.left b = false)
    (hrun : run B.next (Coroutine.start b) es = some s) : Settled B s :=
  run_invariant (fun _ _ _ h hstep => settled_next h hstep) (settled_start hb) hrun

/-! ## What was taken is given back -/

/-- One clean-up was started, for `t`; it has ended, or can still do so. -/
def Coroutine.CleanedUp (B : Coroutine β ε τ) (s : State β τ) (t : τ) : Prop :=
  s.started = [t] ∧
    (s.cleanup = .ended ∨ ∃ u, B.next s .finish = some u ∧ u.cleanup = .ended ∧ u.started = [t])

/-- A coroutine that has returned has cleaned up after what it took; no clean-up is started
twice, and the coroutine can always come to its end. -/
structure Coroutine.Conserved (B : Coroutine β ε τ) (taken : Option τ) (s : State β τ) : Prop where
  cleaned : ∀ t, taken = some t → s.returned = true → B.CleanedUp s t
  once : s.started.length ≤ 1
  returns : ∃ es u, run B.next s es = some u ∧ u.returned = true ∧ u.cleanup ≠ .running

theorem Settled.left (h : Settled B s) (hreturned : s.returned = true) :
    B.left s.body = true := by
  cases hleft : B.left s.body with
  | true => rfl
  | false => simp [(h.inside hleft).2.2] at hreturned

theorem next_finish (hc : s.cleanup = .running) :
    B.next s .finish = some { s with cleanup := .ended, returned := true } := by
  simp [Coroutine.next, hc]

theorem Settled.cleanedUp (h : Settled B s) {t : τ} (hleft : B.left s.body = true)
    (howes : B.owes s.body = some t) : B.CleanedUp s t := by
  obtain ⟨hstarted, hcleanup⟩ := h.owed t hleft howes
  refine ⟨hstarted, ?_⟩
  cases hc : s.cleanup with
  | absent => exact absurd hc hcleanup
  | running => exact Or.inr ⟨_, next_finish hc, rfl, hstarted⟩
  | ended => exact Or.inl rfl

theorem Settled.once (h : Settled B s) : s.started.length ≤ 1 := by
  cases hleft : B.left s.body with
  | false => simp [(h.inside hleft).2.1]
  | true =>
    cases howes : B.owes s.body with
    | none => simp [(h.free hleft howes).1]
    | some t => simp [(h.owed t hleft howes).1]

theorem Settled.returns_of_left (h : Settled B s) (hleft : B.left s.body = true) :
    ∃ es u, run B.next s es = some u ∧ u.returned = true ∧ u.cleanup ≠ .running := by
  cases hc : s.cleanup with
  | absent =>
    cases howes : B.owes s.body with
    | none => exact ⟨[], s, rfl, (h.free hleft howes).2.2, by simp [hc]⟩
    | some t => exact absurd hc (h.owed t hleft howes).2
  | running =>
    exact ⟨[.finish], _, run_cons_eq_some.mpr ⟨_, next_finish hc, rfl⟩, rfl, by simp⟩
  | ended => exact ⟨[], s, rfl, h.waited hc, by simp [hc]⟩

/-- If some event takes every body to its end, the coroutine can always end. -/
theorem Settled.returns (h : Settled B s)
    (hleaves : ∀ b, B.left b = false → ∃ e b', B.step b e = some b' ∧ B.left b' = true) :
    ∃ es u, run B.next s es = some u ∧ u.returned = true ∧ u.cleanup ≠ .running := by
  cases hleft : B.left s.body with
  | true => exact h.returns_of_left hleft
  | false =>
    obtain ⟨e, b', hstep, hb'⟩ := hleaves s.body hleft
    have hnext : B.next s (.body e) = some (B.settle s b') := by
      simp [Coroutine.next, hleft, hstep]
    obtain ⟨es, u, hrun, hu⟩ := (settled_next h hnext).returns_of_left (by simpa using hb')
    exact ⟨.body e :: es, u, run_cons_eq_some.mpr ⟨_, hnext, hrun⟩, hu⟩

/-! ## The run of the body -/

theorem body_next {e : Event ε} (hstep : B.next s e = some s') :
    (∃ d, e = .body d ∧ B.left s.body = false ∧ B.step s.body d = some s'.body) ∨
      (∀ d, e ≠ .body d) ∧ s'.body = s.body := by
  cases e with
  | body d =>
    simp only [Coroutine.next, Option.ite_none_left_eq_some, Option.map_eq_some_iff] at hstep
    obtain ⟨hleft, body, hbody, rfl⟩ := hstep
    exact Or.inl ⟨d, rfl, by simpa using hleft, by simpa using hbody⟩
  | finish | interrupt =>
    simp only [Coroutine.next, Option.ite_none_right_eq_some, Option.some.injEq] at hstep
    obtain ⟨-, rfl⟩ := hstep
    exact Or.inr ⟨by simp, rfl⟩

/-- What every step of the body keeps holds of the body at every point of a bracketed run. -/
theorem body_invariant {I : β → Prop} {es : List (Event ε)}
    (hstep : ∀ b e b', I b → B.step b e = some b' → I b') (hb : I b)
    (hrun : run B.next (Coroutine.start b) es = some s) : I s.body := by
  refine run_invariant (I := fun s : State β τ => I s.body) ?_ hb hrun
  intro u e u' hI hse
  rcases body_next hse with ⟨d, -, -, hbody⟩ | ⟨-, hbody⟩
  · exact hstep u.body d u'.body hI hbody
  · rw [hbody]
    exact hI

theorem body_of_left {t : State β τ} {es : List (Event ε)} (hleft : B.left s.body = true)
    (hrun : run B.next s es = some t) : t.body = s.body := by
  refine run_invariant (I := fun u : State β τ => u.body = s.body) ?_ rfl hrun
  intro u e u' hu hse
  rcases body_next hse with ⟨d, -, hopen, -⟩ | ⟨-, hbody⟩
  · simp [hu, hleft] at hopen
  · exact hbody.trans hu

end Orditect.Support.Bracket
