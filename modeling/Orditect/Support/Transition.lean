import Mathlib.Logic.Basic
/-!
# Guarded step functions and their runs

A system is a guarded step function `step : σ → ε → Option σ`: `some s'` when
the event is enabled in `s`, `none` otherwise.  The event carries every choice
the environment makes, so one definition serves for replaying a concrete trace
and for the induction over all of them.  Nothing here depends on a particular
program.
-/

namespace Orditect.Support.Transition

variable {σ ε : Type*}

/-- Replay `events` from `s`; `none` as soon as one of them is not enabled. -/
def run (step : σ → ε → Option σ) : σ → List ε → Option σ
  | s, [] => some s
  | s, e :: es => (step s e).bind fun s' => run step s' es

/-- The state a trace that goes through ends in; the trace is replayed by
evaluation. -/
def replay (step : σ → ε → Option σ) (s : σ) (es : List ε) : σ := (run step s es).getD s

/-- Every event of the replay meets `G` in the state it is taken from. -/
def Along (step : σ → ε → Option σ) (G : σ → ε → Prop) : σ → List ε → Prop
  | _, [] => True
  | s, e :: es => G s e ∧ ∀ s', step s e = some s' → Along step G s' es

instance decidableAlong {step : σ → ε → Option σ} {G : σ → ε → Prop} [∀ s e, Decidable (G s e)] :
    ∀ (s : σ) (es : List ε), Decidable (Along step G s es)
  | _, [] => isTrue trivial
  | s, e :: es =>
    match h : step s e with
    | none => decidable_of_iff (G s e) (by simp [Along, h])
    | some s' =>
      have : Decidable (Along step G s' es) := decidableAlong s' es
      decidable_of_iff (G s e ∧ Along step G s' es) (by simp [Along, h])

@[simp] theorem run_nil (step : σ → ε → Option σ) (s : σ) : run step s [] = some s := rfl

variable {es : List ε} {s : σ} {step : σ → ε → Option σ} {e : ε} {t : σ} {G : σ → ε → Prop}

theorem run_eq_replay (h : (run step s es).isSome = true) :
    run step s es = some (replay step s es) := by
  obtain ⟨t, ht⟩ := Option.isSome_iff_exists.mp h
  simp [replay, ht]

theorem step_eq_replay (h : (step s e).isSome = true) : step s e = some (replay step s [e]) := by
  obtain ⟨t, ht⟩ := Option.isSome_iff_exists.mp h
  simp [replay, run, ht]

theorem run_cons_eq_some :
    run step s (e :: es) = some t ↔
      ∃ s', step s e = some s' ∧ run step s' es = some t := by
  simp only [run, Option.bind_eq_some_iff]

/-- An assertion kept by every guarded step holds at the end of every run whose
steps all meet the guard. -/
theorem run_invariant_along {I : σ → Prop}
    (hstep : ∀ s e s', I s → G s e → step s e = some s' → I s') (hs : I s)
    (hG : Along step G s es) (hrun : run step s es = some t) : I t := by
  induction es generalizing s with
  | nil =>
    obtain rfl : s = t := by simpa using hrun
    exact hs
  | cons e es ih =>
    obtain ⟨s', hse, hrest⟩ := run_cons_eq_some.mp hrun
    exact ih (hstep s e s' hs hG.1 hse) (hG.2 s' hse) hrest

theorem along_of_forall_mem (h : ∀ e ∈ es, ∀ s, G s e) (s : σ) : Along step G s es := by
  induction es generalizing s with
  | nil => trivial
  | cons e es ih =>
    exact ⟨h e (by simp) s, fun s' _ => ih (fun f hf => h f (by simp [hf])) s'⟩

/-- The rule for a condition on the events alone. -/
theorem run_invariant_mem {I : σ → Prop} {P : ε → Prop}
    (hstep : ∀ s e s', I s → P e → step s e = some s' → I s') (hs : I s) (hes : ∀ e ∈ es, P e)
    (hrun : run step s es = some t) : I t :=
  run_invariant_along hstep hs (along_of_forall_mem (fun e he _ => hes e he) s) hrun

/-- An assertion kept by every step holds at the end of every run. -/
theorem run_invariant {I : σ → Prop} (hstep : ∀ s e s', I s → step s e = some s' → I s')
    (hs : I s) (hrun : run step s es = some t) : I t :=
  run_invariant_mem (P := fun _ => True) (fun s e s' hI _ => hstep s e s' hI) hs
    (fun _ _ => trivial) hrun

/-- What does not hold at the start of a run and holds at its end comes to hold by one of
its steps. -/
theorem exists_step_of_run {P : σ → Prop} (hs : ¬P s) (hrun : run step s es = some t) (ht : P t) :
    ∃ fs e gs u u', es = fs ++ e :: gs ∧ run step s fs = some u ∧ step u e = some u' ∧
      ¬P u ∧ P u' := by
  induction es generalizing s with
  | nil =>
    obtain rfl : s = t := by simpa using hrun
    exact absurd ht hs
  | cons e es ih =>
    obtain ⟨s', hse, hrest⟩ := run_cons_eq_some.mp hrun
    by_cases hs' : P s'
    · exact ⟨[], e, es, s, s', rfl, rfl, hse, hs, hs'⟩
    · obtain ⟨fs, f, gs, u, u', rfl, hfs, hf, hu, hu'⟩ := ih hs' hrest
      exact ⟨e :: fs, f, gs, u, u', rfl, run_cons_eq_some.mpr ⟨s', hse, hfs⟩, hf, hu, hu'⟩

theorem Along.and {H : σ → ε → Prop} (hG : Along step G s es) (hH : Along step H s es) :
    Along step (fun s e => G s e ∧ H s e) s es := by
  induction es generalizing s with
  | nil => trivial
  | cons e es ih =>
    exact ⟨⟨hG.1, hH.1⟩, fun s' hs' => ih (hG.2 s' hs') (hH.2 s' hs')⟩

theorem Along.of_append {fs : List ε} (hrun : run step s es = some t)
    (h : Along step G s (es ++ fs)) :
    Along step G s es ∧ Along step G t fs := by
  induction es generalizing s with
  | nil =>
    obtain rfl : s = t := by simpa using hrun
    exact ⟨trivial, h⟩
  | cons e es ih =>
    obtain ⟨s', hse, hrest⟩ := run_cons_eq_some.mp hrun
    have hnext := ih hrest (h.2 s' hse)
    refine ⟨⟨h.1, fun u hu => ?_⟩, hnext.2⟩
    obtain rfl : s' = u := Option.some.inj (hse.symm.trans hu)
    exact hnext.1

theorem run_append (hrun : run step s es = some t) (fs : List ε) :
    run step s (es ++ fs) = run step t fs := by
  induction es generalizing s with
  | nil =>
    obtain rfl : s = t := by simpa using hrun
    rfl
  | cons e es ih =>
    obtain ⟨s', hse, hrest⟩ := run_cons_eq_some.mp hrun
    rw [List.cons_append, run, hse]
    exact ih hrest

/-- Events that meet `P` lead from `s` to `t`. -/
def Reaches (step : σ → ε → Option σ) (P : ε → Prop) (s t : σ) : Prop :=
  ∃ es, (∀ e ∈ es, P e) ∧ run step s es = some t

theorem Reaches.refl (step : σ → ε → Option σ) (P : ε → Prop) (s : σ) : Reaches step P s s :=
  ⟨[], by simp, rfl⟩

theorem Reaches.single {P : ε → Prop} (he : P e) (h : step s e = some t) : Reaches step P s t :=
  ⟨[e], by simpa using he, by simp [run, h]⟩

theorem Reaches.trans {P : ε → Prop} {u : σ} (h : Reaches step P s t) (h' : Reaches step P t u) :
    Reaches step P s u := by
  obtain ⟨es, hes, hrun⟩ := h
  obtain ⟨fs, hfs, hrun'⟩ := h'
  refine ⟨es ++ fs, fun e he => ?_, (run_append hrun fs).trans hrun'⟩
  rcases List.mem_append.mp he with he | he
  · exact hes e he
  · exact hfs e he

end Orditect.Support.Transition
