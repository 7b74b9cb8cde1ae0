import Mathlib.Data.List.Dedup
/-!
# The most recently used values

A bounded window over a history: a value that is used moves to the end, and a new one pushes out
the one that was not used for longest.  The window is the end of the history without repetitions.
-/

namespace Orditect.Support.Recency

variable {α : Type*} [DecidableEq α] {a : α} {history : List α}

def touch (capacity : Nat) (window : List α) (a : α) : List α :=
  if a ∈ window then window.erase a ++ [a]
  else if capacity < (window ++ [a]).length then (window ++ [a]).tail
  else window ++ [a]

/-- The last `capacity` values of a history, in the order in which they were last used. -/
def recent (capacity : Nat) (history : List α) : List α :=
  history.dedup.drop (history.dedup.length - capacity)

theorem length_recent_le (capacity : Nat) (history : List α) :
    (recent capacity history).length ≤ capacity := by
  rw [recent, List.length_drop]
  omega

theorem dedup_concat (history : List α) (a : α) :
    (history ++ [a]).dedup = history.dedup.erase a ++ [a] := by
  induction history with
  | nil => simp
  | cons b history ih =>
    rw [List.cons_append]
    by_cases hb : b ∈ history
    · rw [List.dedup_cons_of_mem hb, List.dedup_cons_of_mem (List.mem_append_left _ hb), ih]
    · rw [List.dedup_cons_of_notMem hb]
      by_cases hba : b = a
      · subst hba
        rw [List.dedup_cons_of_mem (by simp), ih, List.erase_cons_head,
          List.erase_of_not_mem (by simpa using hb)]
      · rw [List.dedup_cons_of_notMem (by simp [hb, hba]), ih,
          List.erase_cons_tail (by simpa using hba), List.cons_append]

omit [DecidableEq α] in
theorem drop_length_sub {capacity : Nat} {front xs : List α}
    (h : xs.length = capacity ∨ front = [] ∧ xs.length ≤ capacity) :
    (front ++ xs).drop ((front ++ xs).length - capacity) = xs := by
  rcases h with rfl | ⟨rfl, hle⟩
  · simp
  · simp [Nat.sub_eq_zero_of_le hle]

theorem split_recent (capacity : Nat) (history : List α) :
    ∃ front, history.dedup = front ++ recent capacity history ∧
      ((recent capacity history).length = capacity ∨
        front = [] ∧ (recent capacity history).length ≤ capacity) := by
  refine ⟨history.dedup.take (history.dedup.length - capacity),
    (List.take_append_drop _ _).symm, ?_⟩
  rw [recent, List.length_drop]
  by_cases h : capacity ≤ history.dedup.length
  · exact Or.inl (by omega)
  · exact Or.inr ⟨by rw [Nat.sub_eq_zero_of_le (by omega)]; rfl, by omega⟩

theorem touch_recent (capacity : Nat) (history : List α) (a : α) :
    touch capacity (recent capacity history) a = recent capacity (history ++ [a]) := by
  obtain ⟨front, hsplit, hlength⟩ := split_recent capacity history
  have hnodup : (front ++ recent capacity history).Nodup := hsplit ▸ history.nodup_dedup
  have hnext : recent capacity (history ++ [a]) =
      ((front ++ recent capacity history).erase a ++ [a]).drop
        (((front ++ recent capacity history).erase a ++ [a]).length - capacity) := by
    rw [← hsplit, ← dedup_concat]
    rfl
  rw [hnext]
  generalize recent capacity history = window at *
  unfold touch
  split
  · rename_i hmem
    have hfront : a ∉ front := fun h => (List.nodup_append.mp hnodup).2.2 a h a hmem rfl
    have hkept : (window.erase a ++ [a]).length = window.length := by
      have hpos := List.length_pos_of_mem hmem
      rw [List.length_append, List.length_erase_of_mem hmem, List.length_singleton]
      omega
    rw [List.erase_append_right _ hfront, List.append_assoc, drop_length_sub]
    rwa [hkept]
  · rename_i hmem
    have herase : (front ++ window).erase a = front.erase a ++ window := by
      rw [List.erase_append]
      split
      · rfl
      · rename_i hfront
        rw [List.erase_of_not_mem hmem, List.erase_of_not_mem hfront]
    rw [herase, List.append_assoc]
    split
    · rename_i hfull
      -- the window was full, and the first value gives way
      obtain ⟨oldest, rest, hrest⟩ : ∃ oldest rest, window ++ [a] = oldest :: rest :=
        List.exists_cons_of_ne_nil (by simp)
      have hlength' : rest.length + 1 = window.length + 1 := by
        rw [← List.length_cons, ← hrest, List.length_append, List.length_singleton]
      rw [List.length_append, List.length_singleton] at hfull
      have hcapacity : rest.length = capacity := by
        rcases hlength with h | ⟨-, h⟩ <;> omega
      rw [hrest, List.tail_cons, List.append_cons, drop_length_sub (Or.inl hcapacity)]
    · rename_i hroom
      rw [List.length_append, List.length_singleton] at hroom
      have hfront : front = [] := by
        rcases hlength with h | ⟨h, -⟩
        · omega
        · exact h
      rw [hfront, List.erase_nil, drop_length_sub (Or.inr ⟨rfl, by simpa using hroom⟩)]

/-! ## What is in the window -/

/-- The value was never used, or at least `capacity` others were since. -/
def Expired (capacity : Nat) (history : List α) (a : α) : Prop :=
  a ∉ history ∨ ∃ before since, history = before ++ a :: since ∧ a ∉ since ∧
    capacity ≤ since.dedup.length

theorem exists_last_use (h : a ∈ history) :
    ∃ before since, history = before ++ a :: since ∧ a ∉ since := by
  induction history with
  | nil => exact absurd h List.not_mem_nil
  | cons b history ih =>
    by_cases hrest : a ∈ history
    · obtain ⟨before, since, rfl, hsince⟩ := ih hrest
      exact ⟨b :: before, since, rfl, hsince⟩
    · obtain rfl := (List.mem_cons.mp h).resolve_right hrest
      exact ⟨[], history, rfl, hrest⟩

theorem dedup_append_cons (before : List α) {since : List α} (h : a ∉ since) :
    ∃ front, (before ++ a :: since).dedup = front ++ a :: since.dedup := by
  induction before with
  | nil => exact ⟨[], List.dedup_cons_of_notMem h⟩
  | cons b before ih =>
    obtain ⟨front, hfront⟩ := ih
    rw [List.cons_append]
    by_cases hb : b ∈ before ++ a :: since
    · exact ⟨front, by rw [List.dedup_cons_of_mem hb, hfront]⟩
    · exact ⟨b :: front, by rw [List.dedup_cons_of_notMem hb, hfront, List.cons_append]⟩

/-- A value is in the window while fewer than `capacity` others were used after it. -/
theorem mem_recent_iff (capacity : Nat) (before : List α) {since : List α} (h : a ∉ since) :
    a ∈ recent capacity (before ++ a :: since) ↔ since.dedup.length < capacity := by
  obtain ⟨front, hfront⟩ := dedup_append_cons before h
  rw [recent, hfront, List.length_append, List.length_cons]
  by_cases hlt : since.dedup.length < capacity
  · refine iff_of_true ?_ hlt
    rw [List.drop_append_of_le_length (by omega)]
    exact List.mem_append_right _ List.mem_cons_self
  · refine iff_of_false (fun hmem => h ?_) hlt
    have hafter : (front ++ a :: since.dedup).drop
        (front.length + (since.dedup.length + 1) - capacity) =
        since.dedup.drop (since.dedup.length - capacity) := by
      have hskip : front.length + (since.dedup.length + 1) - capacity =
          (front ++ [a]).length + (since.dedup.length - capacity) := by
        rw [List.length_append, List.length_singleton]
        omega
      rw [List.append_cons, hskip, List.drop_length_add_append]
    rw [hafter] at hmem
    exact List.mem_dedup.mp (List.mem_of_mem_drop hmem)

theorem notMem_recent_iff (capacity : Nat) (history : List α) (a : α) :
    a ∉ recent capacity history ↔ Expired capacity history a := by
  constructor
  · intro hmem
    by_cases huse : a ∈ history
    · obtain ⟨before, since, rfl, hsince⟩ := exists_last_use huse
      refine Or.inr ⟨before, since, rfl, hsince, ?_⟩
      rwa [mem_recent_iff capacity before hsince, Nat.not_lt] at hmem
    · exact Or.inl huse
  · rintro (hnever | ⟨before, since, rfl, hsince, hcapacity⟩)
    · exact fun hmem => hnever (List.mem_dedup.mp (List.mem_of_mem_drop hmem))
    · rwa [mem_recent_iff capacity before hsince, Nat.not_lt]

end Orditect.Support.Recency
