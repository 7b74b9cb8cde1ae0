import Mathlib.Data.List.Infix
/-!
# Occurrences of a word in a text

Where a word occurs in a text, the first place of it, and the occurrences that a search
from the left finds when it goes on behind each one.
-/

namespace Orditect.Support.Occurrences

variable {α : Type*}

def OccursAt (word text : List α) (p : Nat) : Prop := word <+: text.drop p

/-- The positions a search from the left finds from `start` on: the first occurrence there, and
then those behind its end. -/
def LeftmostFrom (word text : List α) : Nat → List Nat → Prop
  | start, [] => ∀ q, start ≤ q → ¬OccursAt word text q
  | start, p :: ps => start ≤ p ∧ OccursAt word text p ∧
      (∀ q, start ≤ q → q < p → ¬OccursAt word text q) ∧
      LeftmostFrom word text (p + word.length) ps

def find [DecidableEq α] (word : List α) : List α → Option Nat
  | [] => if word = [] then some 0 else none
  | c :: text => if word <+: c :: text then some 0 else (find word text).map (· + 1)

variable {p : Nat} {text : List α}

section

variable {word : List α}

theorem OccursAt.length_le (h : OccursAt word text p) (hne : word ≠ []) :
    p + word.length ≤ text.length := by
  have hle := List.IsPrefix.length_le h
  rw [List.length_drop] at hle
  have hpos := List.length_pos_iff.mpr hne
  omega

theorem occursAt_zero (text : List α) : OccursAt word text 0 ↔ word <+: text := by
  simp [OccursAt]

theorem occursAt_cons (c : α) (text : List α) (p : Nat) :
    OccursAt word (c :: text) (p + 1) ↔ OccursAt word text p := by
  simp [OccursAt]

theorem occursAt_append_add (before text : List α) (p : Nat) :
    OccursAt word (before ++ text) (before.length + p) ↔ OccursAt word text p := by
  rw [OccursAt, OccursAt, ← List.drop_drop, List.drop_left]

/-- An occurrence that ends within the first part is one of the first part. -/
theorem occursAt_of_append {after : List α} (h : OccursAt word (text ++ after) p)
    (hle : p + word.length ≤ text.length) : OccursAt word text p := by
  have hp : p ≤ text.length := by omega
  unfold OccursAt at h ⊢
  rw [List.drop_append_of_le_length hp] at h
  exact List.prefix_of_prefix_length_le h (List.prefix_append _ _) (by rw [List.length_drop]; omega)

/-- What is first in a text is first in every longer one. -/
theorem not_occursAt_append {before behind : List α}
    (h : ∀ q, q < before.length → ¬OccursAt word (before ++ (word ++ behind)) q) (after : List α)
    (q : Nat) (hq : q < before.length) :
    ¬OccursAt word (before ++ (word ++ (behind ++ after))) q := by
  intro hocc
  rw [← List.append_assoc word, ← List.append_assoc before] at hocc
  refine h q hq (occursAt_of_append hocc ?_)
  simp only [List.length_append]
  omega

theorem leftmostFrom_append (before text : List α) (start : Nat) (ps : List Nat) :
    LeftmostFrom word (before ++ text) (before.length + start) (ps.map (before.length + ·)) ↔
      LeftmostFrom word text start ps := by
  induction ps generalizing start with
  | nil =>
    simp only [List.map_nil, LeftmostFrom]
    constructor
    · intro h q hq
      rw [← occursAt_append_add before text q]
      exact h _ (by omega)
    · intro h q hq
      obtain ⟨r, rfl⟩ := Nat.exists_eq_add_of_le (show before.length ≤ q by omega)
      rw [occursAt_append_add]
      exact h r (by omega)
  | cons p ps ih =>
    simp only [List.map_cons, LeftmostFrom, occursAt_append_add, Nat.add_assoc, ih,
      Nat.add_le_add_iff_left]
    apply and_congr_right
    intro _
    apply and_congr_right
    intro _
    apply and_congr_left
    intro _
    constructor
    · intro h q hq hlt
      rw [← occursAt_append_add before text q]
      exact h _ (by omega) (by omega)
    · intro h q hq hlt
      obtain ⟨r, rfl⟩ := Nat.exists_eq_add_of_le (show before.length ≤ q by omega)
      rw [occursAt_append_add]
      exact h r (by omega) (by omega)

variable {ps : List Nat}

/-- A search may begin later, as long as it passes over no occurrence. -/
theorem leftmostFrom_of_le {start later : Nat} (hle : start ≤ later)
    (hnone : ∀ q, start ≤ q → q < later → ¬OccursAt word text q)
    (h : LeftmostFrom word text later ps) : LeftmostFrom word text start ps := by
  cases ps with
  | nil =>
    intro q hq
    by_cases hlt : q < later
    · exact hnone q hq hlt
    · exact h q (by omega)
  | cons p ps =>
    obtain ⟨hp, hocc, hfirst, hrest⟩ := h
    refine ⟨by omega, hocc, fun q hq hlt => ?_, hrest⟩
    by_cases hq' : q < later
    · exact hnone q hq hq'
    · exact hfirst q (by omega) hlt

/-- Text in front of which no occurrence begins moves all positions. -/
theorem leftmost_skip {before : List α}
    (hnone : ∀ q, q < before.length → ¬OccursAt word (before ++ text) q)
    (h : LeftmostFrom word text 0 ps) :
    LeftmostFrom word (before ++ text) 0 (ps.map (before.length + ·)) := by
  apply leftmostFrom_of_le (Nat.zero_le before.length) fun q _ hq => hnone q hq
  exact (leftmostFrom_append before text 0 ps).mpr h

/-- The first occurrence, and those behind its end. -/
theorem leftmost_hit {before : List α}
    (hnone : ∀ q, q < before.length → ¬OccursAt word (before ++ (word ++ text)) q)
    (h : LeftmostFrom word text 0 ps) :
    LeftmostFrom word (before ++ (word ++ text)) 0
      (before.length :: ps.map (before.length + word.length + ·)) := by
  refine ⟨Nat.zero_le _, ?_, fun q _ hq => hnone q hq, ?_⟩
  · have hhere : OccursAt word (word ++ text) 0 := (occursAt_zero _).mpr (List.prefix_append _ _)
    simpa using (occursAt_append_add before (word ++ text) 0).mpr hhere
  · have hmoved := (leftmostFrom_append (before ++ word) text 0 ps).mpr h
    simpa [List.append_assoc] using hmoved

end

section

variable [DecidableEq α] {word : List α}

theorem find_eq_none (h : find word text = none) (p : Nat) :
    ¬OccursAt word text p := by
  induction text generalizing p with
  | nil =>
    have hne : word ≠ [] := by
      rintro rfl
      simp [find] at h
    intro hocc
    have hle := hocc.length_le hne
    have hpos := List.length_pos_iff.mpr hne
    simp only [List.length_nil] at hle
    omega
  | cons c text ih =>
    rw [find] at h
    split at h
    · simp at h
    · rename_i hnot
      cases p with
      | zero => rwa [occursAt_zero]
      | succ p =>
        rw [occursAt_cons]
        exact ih (by simpa using h) p

theorem find_eq_some (h : find word text = some p) :
    ∃ before after, text = before ++ (word ++ after) ∧ before.length = p ∧
      ∀ q, q < p → ¬OccursAt word text q := by
  induction text generalizing p with
  | nil =>
    rw [find] at h
    split at h
    · rename_i hword
      obtain rfl := Option.some.inj h
      exact ⟨[], [], by simp [hword], rfl, fun q hq => absurd hq (Nat.not_lt_zero q)⟩
    · simp at h
  | cons c text ih =>
    rw [find] at h
    split at h
    · rename_i hword
      obtain rfl := Option.some.inj h
      obtain ⟨after, hafter⟩ := hword
      exact ⟨[], after, hafter.symm, rfl, fun q hq => absurd hq (Nat.not_lt_zero q)⟩
    · rename_i hnot
      obtain ⟨p', hp', rfl⟩ := Option.map_eq_some_iff.mp h
      obtain ⟨before, after, htext, rfl, hfirst⟩ := ih hp'
      refine ⟨c :: before, after, by rw [htext]; rfl, rfl, fun q hq => ?_⟩
      cases q with
      | zero => rwa [occursAt_zero]
      | succ q =>
        rw [occursAt_cons]
        exact hfirst q (by omega)

end

end Orditect.Support.Occurrences
