import Mathlib.Data.Fintype.Card
import Mathlib.Data.List.Chain
import Mathlib.Data.Set.Finite.Basic
/-!
# Levels of a directed graph without cycles

The level of a node is the number of links of the longest chain that starts there.
-/

namespace Orditect.Support.Levels

open Relation

variable {α : Type*} {r : α → α → Prop}

/-- Every chain that starts at `a` has fewer than `k` links. -/
def Shallow (r : α → α → Prop) (k : Nat) (a : α) : Prop :=
  ∀ path : List α, (a :: path).IsChain r → path.length < k

/-- The longest chain that starts at `a` has `k` links. -/
def Height (r : α → α → Prop) (a : α) (k : Nat) : Prop :=
  (∃ path : List α, (a :: path).IsChain r ∧ path.length = k) ∧
    ∀ path : List α, (a :: path).IsChain r → path.length ≤ k

variable {a : α} {k : Nat}

theorem not_shallow_zero (a : α) : ¬Shallow r 0 a := fun h =>
  Nat.not_lt_zero _ (h [] (List.isChain_singleton a))

theorem Shallow.mono (h : Shallow r k a) {m : Nat} (hle : k ≤ m) : Shallow r m a :=
  fun path hpath => (h path hpath).trans_le hle

theorem shallow_succ : Shallow r (k + 1) a ↔ ∀ b, r a b → Shallow r k b := by
  constructor
  · intro h b hab path hpath
    exact Nat.succ_lt_succ_iff.mp (h (b :: path) (List.isChain_cons_cons.mpr ⟨hab, hpath⟩))
  · intro h path hpath
    cases path with
    | nil => exact Nat.succ_pos k
    | cons b path =>
      obtain ⟨hab, hrest⟩ := List.isChain_cons_cons.mp hpath
      exact Nat.succ_lt_succ (h b hab path hrest)

theorem height_iff : Height r a k ↔ ¬Shallow r k a ∧ Shallow r (k + 1) a := by
  constructor
  · rintro ⟨⟨path, hpath, hlength⟩, hmax⟩
    exact ⟨fun h => (h path hpath).ne hlength, fun path hpath =>
      Nat.lt_succ_of_le (hmax path hpath)⟩
  · rintro ⟨hdeep, hshallow⟩
    have hmax : ∀ path : List α, (a :: path).IsChain r → path.length ≤ k :=
      fun path hpath => Nat.le_of_lt_succ (hshallow path hpath)
    simp only [Shallow, not_forall, not_lt] at hdeep
    obtain ⟨path, hpath, hle⟩ := hdeep
    exact ⟨⟨path, hpath, (hmax path hpath).antisymm hle⟩, hmax⟩

theorem Height.unique (h : Height r a k) {m : Nat} (hm : Height r a m) : k = m := by
  obtain ⟨⟨path, hpath, rfl⟩, hmax⟩ := h
  obtain ⟨⟨path', hpath', rfl⟩, hmax'⟩ := hm
  exact (hmax' path hpath).antisymm (hmax path' hpath')

/-- A node that is shallow has a height. -/
theorem Shallow.exists_height (h : Shallow r k a) : ∃ m < k, Height r a m := by
  induction k with
  | zero => exact absurd h (not_shallow_zero a)
  | succ k ih =>
    by_cases hk : Shallow r k a
    · obtain ⟨m, hm, hheight⟩ := ih hk
      exact ⟨m, Nat.lt_succ_of_lt hm, hheight⟩
    · exact ⟨k, Nat.lt_succ_self k, height_iff.mpr ⟨hk, h⟩⟩

theorem Height.lt_of_shallow (h : Height r a k) {m : Nat} (hm : Shallow r m a) : k < m := by
  obtain ⟨⟨path, hpath, rfl⟩, -⟩ := h
  exact hm path hpath

/-- The rule of a finite graph without cycles: what holds of a node whenever it holds of all it
points at holds of every node. -/
theorem acyclic_induction {nodes : List α} (hacyclic : ∀ a ∈ nodes, ¬TransGen r a a)
    {P : α → Prop} (h : ∀ a ∈ nodes, (∀ b ∈ nodes, r a b → P b) → P a) : ∀ a ∈ nodes, P a := by
  let below : {a // a ∈ nodes} → {a // a ∈ nodes} → Prop := fun b a => TransGen r a.1 b.1
  have htrans : IsTrans _ below := ⟨fun _ _ _ hab hbc => hbc.trans hab⟩
  have hirrefl : Std.Irrefl below := ⟨fun a => hacyclic a.1 a.2⟩
  have hfinite : Finite {a // a ∈ nodes} := nodes.finite_toSet
  have hwf : WellFounded below := Finite.wellFounded_of_trans_of_irrefl below
  intro a ha
  have hall : ∀ a : {a // a ∈ nodes}, P a.1 := fun a => by
    induction a using hwf.induction with
    | _ a ih => exact h a.1 a.2 fun b hb hab => ih ⟨b, hb⟩ (.single hab)
  exact hall ⟨a, ha⟩

end Orditect.Support.Levels
