import Mathlib.Order.WellFounded
/-!
# While loops

A loop is given by its body `next : σ → Option σ`, which answers `none` where the loop
is left.  The number of rounds is bounded by a fuel argument, and a measure that every
round decreases shows that the bound is never met.
-/

namespace Orditect.Support.Loop

variable {σ β : Type*} {next : σ → Option σ}

/-- The state the loop is left in; `none` when `fuel` rounds do not leave it. -/
def loop (next : σ → Option σ) : Nat → σ → Option σ
  | 0, _ => none
  | fuel + 1, s =>
    match next s with
    | none => some s
    | some s' => loop next fuel s'

variable {s : σ} {n : Nat} {t u : σ}

theorem loop_of_eq_none (h : next s = none) (fuel : Nat) :
    loop next (fuel + 1) s = some s := by
  simp [loop, h]

theorem loop_of_eq_some {s' : σ} (h : next s = some s') (fuel : Nat) :
    loop next (fuel + 1) s = loop next fuel s' := by
  simp [loop, h]

/-- The rule of a loop with a variant: an assertion that every round keeps while it
decreases `μ` holds where the loop is left, and every sufficient fuel leaves it there. -/
theorem loop_terminates [Preorder β] [WellFoundedLT β] (μ : σ → β) {I : σ → Prop}
    (hround : ∀ s s', I s → next s = some s' → I s' ∧ μ s' < μ s) (hs : I s) :
    ∃ t, I t ∧ next t = none ∧ ∃ n, ∀ m, n ≤ m → loop next m s = some t := by
  induction hb : μ s using WellFoundedLT.induction generalizing s with
  | _ b ih =>
    subst hb
    cases hnext : next s with
    | none =>
      refine ⟨s, hs, hnext, 1, fun m hm => ?_⟩
      obtain ⟨m, rfl⟩ := Nat.exists_eq_add_of_le' hm
      exact loop_of_eq_none hnext m
    | some s' =>
      obtain ⟨hs', hlt⟩ := hround s s' hs hnext
      obtain ⟨t, ht, hdone, n, hn⟩ := ih (μ s') hlt hs' rfl
      refine ⟨t, ht, hdone, n + 1, fun m hm => ?_⟩
      obtain ⟨m, rfl⟩ : ∃ k, m = k + 1 := ⟨m - 1, by omega⟩
      rw [loop_of_eq_some hnext]
      exact hn m (by omega)

/-- Some number of rounds takes the loop from `s` to `t`. -/
def Leads (next : σ → Option σ) (s t : σ) : Prop :=
  ∃ n, ∀ fuel, loop next (n + fuel) s = loop next fuel t

namespace Leads

theorem refl (s : σ) : Leads next s s := ⟨0, fun fuel => by rw [Nat.zero_add]⟩

theorem trans (hst : Leads next s t) (htu : Leads next t u) : Leads next s u := by
  obtain ⟨n, hn⟩ := hst
  obtain ⟨m, hm⟩ := htu
  refine ⟨n + m, fun fuel => ?_⟩
  rw [Nat.add_assoc, hn, hm]

theorem step {s' : σ} (h : next s = some s') (hst : Leads next s' t) : Leads next s t := by
  refine trans ⟨1, fun fuel => ?_⟩ hst
  rw [Nat.add_comm, loop_of_eq_some h]

end Leads

end Orditect.Support.Loop
