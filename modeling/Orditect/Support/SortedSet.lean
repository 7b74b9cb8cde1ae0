import Mathlib.Data.List.AList
import Mathlib.Data.List.Sort
import Mathlib.Data.Finset.Card
import Orditect.Support.Expiring
/-!
# Sorted sets and hashes behind an expiring key

The aggregates of a key-value server, as association lists with distinct keys.
An aggregate that loses its last member takes its key (and the key's time to
live) with it, so a later insertion starts from a persistent key again.
-/

namespace Orditect.Support.SortedSet

open Support.Expiring

variable {α β : Type*}

/-- Fields with their values. -/
abbrev Hash (α β : Type*) := AList (fun _ : α => β)

/-- Members with their scores. -/
abbrev ZSet (α : Type*) := Hash α Nat

def filterEntries (p : α → β → Bool) (s : Hash α β) : Hash α β :=
  ⟨s.entries.filter fun e => p e.1 e.2, s.nodupKeys.sublist List.filter_sublist⟩

/-! ## Aggregates in a cell -/

/-- The content of an aggregate key; an absent key reads as the empty one. -/
def content (c : Cell (Hash α β)) : Hash α β := c.get.getD ∅

/-- Store the aggregate back under the same time to live; an empty one takes
its key with it. -/
def store (s : Hash α β) (c : Cell (Hash α β)) : Cell (Hash α β) :=
  if s.entries.isEmpty then none else c.modify s

def card (c : Cell (Hash α β)) : Nat := (content c).entries.length

def remRangeByScore (bound : Int) (c : Cell (ZSet α)) : Cell (ZSet α) :=
  store (filterEntries (fun _ score => decide (bound < (score : Int))) (content c)) c

def scoreLe [LE α] (x y : Σ _ : α, Nat) : Prop := x.2 < y.2 ∨ (x.2 = y.2 ∧ x.1 ≤ y.1)

instance [LE α] [DecidableLE α] : DecidableRel (scoreLe (α := α)) :=
  fun x y => inferInstanceAs (Decidable (x.2 < y.2 ∨ (x.2 = y.2 ∧ x.1 ≤ y.1)))

def range [LE α] [DecidableLE α] (c : Cell (ZSet α)) : List α :=
  ((content c).entries.insertionSort scoreLe).map Sigma.fst

def rangeByScore [LE α] [DecidableLE α] (bound : Int) (c : Cell (ZSet α)) : List α :=
  (((content c).entries.insertionSort scoreLe).filter fun e => decide ((e.2 : Int) ≤ bound)).map
    Sigma.fst

section Lookup

variable [DecidableEq α]

def put (a : α) (b : β) (c : Cell (Hash α β)) : Cell (Hash α β) :=
  c.modify ((content c).insert a b)

def del (a : α) (c : Cell (Hash α β)) : Cell (Hash α β) :=
  store ((content c).erase a) c

def find (a : α) (c : Cell (Hash α β)) : Option β := (content c).lookup a

end Lookup

/-! ## What each command does to the key -/

@[simp] theorem content_none : content (none : Cell (Hash α β)) = ∅ := rfl

@[simp] theorem content_modify (s : Hash α β) (c : Cell (Hash α β)) :
    content (c.modify s) = s := rfl

@[simp] theorem content_store (s : Hash α β) (c : Cell (Hash α β)) : content (store s c) = s := by
  unfold store
  split
  · rename_i h
    exact AList.ext (by simpa using (List.isEmpty_iff.mp h).symm)
  · rfl

variable {c : Cell (Hash α β)} {s : Hash α β} {a : α}

theorem content_congr {d : Cell (Hash α β)} (h : c.get = d.get) : content c = content d := by
  rw [content, content, h]

/-- Storing back keeps the deadline, unless nothing is left to store. -/
theorem deadline_store {e : Nat} (h : (store s c).deadline = some e) : c.deadline = some e := by
  unfold store at h
  split at h
  · simp at h
  · exact h

theorem card_remRangeByScore_le (bound : Int) (c : Cell (ZSet α)) :
    card (remRangeByScore bound c) ≤ card c := by
  simp only [card, remRangeByScore, content_store, filterEntries]
  exact List.length_filter_le _ _

section Lookup

variable [DecidableEq α] {b : β}

theorem lookup_filterEntries {p : α → β → Bool} :
    (filterEntries p s).lookup a = some b ↔ s.lookup a = some b ∧ p a b = true := by
  simp only [← Option.mem_def, AList.mem_lookup_iff, filterEntries, List.mem_filter]

theorem find_congr {d : Cell (Hash α β)} (h : c.get = d.get) (a : α) : find a c = find a d := by
  rw [find, find, content_congr h]

@[simp] theorem find_none (a : α) : find a (none : Cell (Hash α β)) = none := rfl

theorem get_ne_none_of_find (h : find a c = some b) :
    c.get ≠ none := by
  cases c with
  | none => simp at h
  | some e => simp

/-- A key that still has a member has kept its deadline. -/
theorem deadline_store_of_find (h : find a (store s c) = some b) :
    (store s c).deadline = c.deadline := by
  unfold store at h ⊢
  split
  · rename_i hempty
    rw [if_pos hempty] at h
    simp at h
  · rfl

theorem isEmpty_entries_iff :
    s.entries.isEmpty = true ↔ ∀ a, s.lookup a = none := by
  constructor
  · intro h a
    have hs : s = ∅ := AList.ext (by simpa using h)
    rw [hs]
    exact AList.lookup_empty a
  · intro h
    cases hs : s.entries with
    | nil => rfl
    | cons e l =>
      have hlook : s.lookup e.1 = some e.2 := AList.mem_lookup_iff.mpr (by simp [hs])
      rw [h] at hlook
      simp at hlook

/-- Two keys with the same members and the same deadline still share it after
the same deletion. -/
theorem deadline_del_congr {γ : Type*} {d : Cell (Hash α γ)} (a : α)
    (hmem : ∀ b, (∃ v, find b c = some v) ↔ ∃ w, find b d = some w)
    (hdead : c.deadline = d.deadline) : (del a c).deadline = (del a d).deadline := by
  have hnone : ∀ b, find b c = none ↔ find b d = none := fun b => by
    have h := not_congr (hmem b)
    simpa only [not_exists, ← Option.eq_none_iff_forall_ne_some] using h
  have hempty : ((content c).erase a).entries.isEmpty = ((content d).erase a).entries.isEmpty := by
    rw [Bool.eq_iff_iff, isEmpty_entries_iff, isEmpty_entries_iff]
    refine forall_congr' fun b => ?_
    by_cases hb : b = a
    · subst hb
      simp
    · rw [AList.lookup_erase_ne hb, AList.lookup_erase_ne hb]
      exact hnone b
  simp only [del, store, hempty]
  split
  · rfl
  · exact hdead

theorem find_put (a b : α) (v : β) (c : Cell (Hash α β)) :
    find b (put a v c) = if b = a then some v else find b c := by
  simp only [find, put, content_modify]
  split
  · rename_i h
    subst h
    exact AList.lookup_insert _
  · rename_i h
    exact AList.lookup_insert_ne h

theorem find_del (a b : α) (c : Cell (Hash α β)) :
    find b (del a c) = if b = a then none else find b c := by
  simp only [find, del, content_store]
  split
  · rename_i h
    subst h
    exact AList.lookup_erase _ _
  · rename_i h
    exact AList.lookup_erase_ne h

theorem find_remRangeByScore {bound : Int} {c : Cell (ZSet α)} {score : Nat} :
    find a (remRangeByScore bound c) = some score ↔
      find a c = some score ∧ bound < (score : Int) := by
  simp only [find, remRangeByScore, content_store, lookup_filterEntries, decide_eq_true_eq]

@[simp] theorem get_put (a : α) (v : β) (c : Cell (Hash α β)) :
    (put a v c).get = some ((content c).insert a v) := rfl

@[simp] theorem deadline_put (a : α) (v : β) (c : Cell (Hash α β)) :
    (put a v c).deadline = c.deadline := rfl

theorem mem_content : a ∈ content c ↔ ∃ v, find a c = some v := by
  rw [find, ← AList.lookup_isSome, Option.isSome_iff_exists]

theorem card_put_le (a : α) (b : β) (c : Cell (Hash α β)) : card (put a b c) ≤ card c + 1 := by
  simp only [card, put, content_modify, AList.entries_insert, List.length_cons]
  exact Nat.succ_le_succ (List.kerase_sublist a _).length_le

theorem card_put_of_find {v : β} (h : find a c = some v) :
    card (put a b c) = card c := by
  have hmem : a ∈ (content c).keys := AList.mem_keys.mp (mem_content.mpr ⟨v, h⟩)
  have hlen : ∀ s : Hash α β, s.entries.length = s.keys.length := fun s => by
    simp [AList.keys, List.keys]
  rw [card, card, put, content_modify, hlen, hlen, AList.keys_insert, List.length_cons,
    List.length_erase_of_mem hmem]
  exact Nat.succ_pred_eq_of_pos (List.length_pos_of_mem hmem)

theorem card_del_le (a : α) (c : Cell (Hash α β)) : card (del a c) ≤ card c := by
  simp only [card, del, content_store]
  exact (List.kerase_sublist a _).length_le

/-- Distinct members that are all found number at most the cardinality. -/
theorem card_le_card {members : Finset α} (h : ∀ a ∈ members, ∃ v, find a c = some v) :
    members.card ≤ card c := by
  have hsub : members ⊆ (content c).keys.toFinset := by
    intro a ha
    rw [List.mem_toFinset, ← AList.mem_keys, mem_content]
    exact h a ha
  calc members.card ≤ (content c).keys.toFinset.card := Finset.card_le_card hsub
    _ ≤ (content c).keys.length := List.toFinset_card_le _
    _ = card c := by simp [card, AList.keys, List.keys]

end Lookup

section Range

variable [LE α] [DecidableLE α]

theorem range_perm (c : Cell (ZSet α)) : (range c).Perm (content c).keys :=
  (List.perm_insertionSort scoreLe (content c).entries).map Sigma.fst

theorem nodup_range (c : Cell (ZSet α)) : (range c).Nodup :=
  (range_perm c).nodup_iff.mpr (content c).keys_nodup

theorem nodup_rangeByScore (bound : Int) (c : Cell (ZSet α)) : (rangeByScore bound c).Nodup :=
  (nodup_range c).sublist (List.filter_sublist.map Sigma.fst)

variable [DecidableEq α]

theorem mem_range {c : Cell (ZSet α)} : a ∈ range c ↔ ∃ score, find a c = some score := by
  rw [(range_perm c).mem_iff, ← AList.mem_keys, mem_content]

theorem mem_rangeByScore {bound : Int} {c : Cell (ZSet α)} :
    a ∈ rangeByScore bound c ↔ ∃ score : Nat, find a c = some score ∧ (score : Int) ≤ bound := by
  simp only [rangeByScore, List.mem_map, List.mem_filter, decide_eq_true_eq]
  constructor
  · rintro ⟨⟨b, score⟩, ⟨hmem, hle⟩, rfl⟩
    have hmem' := (List.perm_insertionSort scoreLe (content c).entries).mem_iff.mp hmem
    exact ⟨score, AList.mem_lookup_iff.mpr hmem', hle⟩
  · rintro ⟨score, hfind, hle⟩
    have hmem : (⟨a, score⟩ : Σ _ : α, Nat) ∈ (content c).entries := AList.mem_lookup_iff.mp hfind
    exact ⟨⟨a, score⟩, ⟨(List.perm_insertionSort scoreLe _).mem_iff.mpr hmem, hle⟩, rfl⟩

end Range

end Orditect.Support.SortedSet
