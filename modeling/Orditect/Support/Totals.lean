import Mathlib.Algebra.Order.Ring.Int
import Mathlib.Algebra.Order.BigOperators.Group.List
import Orditect.Support.SortedSet
/-!
# Totals over a hash

The sum of a weight over the entries of an association list.  Only the lookups
matter, so two lists that answer alike have equal totals, and an insertion or
an erasure changes the total by one weight.
-/

namespace Orditect.Support.Totals

open Support.SortedSet

variable {α β γ : Type*}

def total (weight : β → Int) (h : Hash α β) : Int := (h.entries.map fun e => weight e.2).sum

/-- The entries with their weights; distinct because the keys are. -/
private def weighed (weight : β → Int) (h : Hash α β) : List (α × Int) :=
  h.entries.map fun e => (e.1, weight e.2)

private theorem total_eq_weighed (weight : β → Int) (h : Hash α β) :
    total weight h = ((weighed weight h).map Prod.snd).sum := by
  simp [total, weighed, Function.comp_def]

private theorem nodup_weighed (weight : β → Int) (h : Hash α β) : (weighed weight h).Nodup := by
  refine List.Nodup.of_map Prod.fst ?_
  have hkeys : (weighed weight h).map Prod.fst = h.keys := by
    simp [weighed, AList.keys, List.keys, Function.comp_def]
  rw [hkeys]
  exact h.keys_nodup

@[simp] theorem total_empty (weight : β → Int) : total weight (∅ : Hash α β) = 0 := rfl

variable [DecidableEq α] {a : α} {h : Hash α β}

private theorem mem_weighed {weight : β → Int} {n : Int} :
    (a, n) ∈ weighed weight h ↔ (h.lookup a).map weight = some n := by
  simp only [weighed, List.mem_map, Option.map_eq_some_iff]
  constructor
  · rintro ⟨⟨k, b⟩, hmem, heq⟩
    obtain ⟨rfl, rfl⟩ := Prod.mk.inj heq
    exact ⟨b, AList.mem_lookup_iff.mpr hmem, rfl⟩
  · rintro ⟨b, hlook, rfl⟩
    exact ⟨⟨a, b⟩, AList.mem_lookup_iff.mp hlook, rfl⟩

theorem total_congr {w : β → Int} {v : γ → Int} {g : Hash α γ}
    (heq : ∀ a, (h.lookup a).map w = (g.lookup a).map v) : total w h = total v g := by
  have hperm : (weighed w h).Perm (weighed v g) := by
    refine (List.perm_ext_iff_of_nodup (nodup_weighed w h) (nodup_weighed v g)).mpr ?_
    rintro ⟨a, n⟩
    rw [mem_weighed, mem_weighed, heq a]
  rw [total_eq_weighed, total_eq_weighed]
  exact (hperm.map Prod.snd).sum_eq

theorem total_insert (weight : β → Int) (b : β) (ha : h.lookup a = none) :
    total weight (h.insert a b) = total weight h + weight b := by
  have hmem : a ∉ h := AList.lookup_eq_none.mp ha
  simp only [total, AList.entries_insert_of_notMem hmem, List.map_cons, List.sum_cons]
  exact Int.add_comm _ _

theorem total_erase (weight : β → Int) {b : β} (ha : h.lookup a = some b) :
    total weight (h.erase a) = total weight h - weight b := by
  have hback : total weight ((h.erase a).insert a b) = total weight h := by
    refine total_congr fun k => ?_
    by_cases hk : k = a
    · subst hk
      rw [AList.lookup_insert, ha]
    · rw [AList.lookup_insert_ne hk, AList.lookup_erase_ne hk]
  have hins := total_insert weight b (AList.lookup_erase a h)
  omega

theorem total_nonneg {weight : β → Int} (hw : ∀ a b, h.lookup a = some b → 0 ≤ weight b) :
    0 ≤ total weight h := by
  refine List.sum_nonneg ?_
  intro n hn
  obtain ⟨⟨k, b⟩, hmem, rfl⟩ := List.mem_map.mp hn
  exact hw k b (AList.mem_lookup_iff.mpr hmem)

theorem le_total (weight : β → Int) {b : β} (hw : ∀ a b, h.lookup a = some b → 0 ≤ weight b)
    (ha : h.lookup a = some b) :
    weight b ≤ total weight h := by
  have hrest : 0 ≤ total weight (h.erase a) := by
    refine total_nonneg fun k c hk => ?_
    by_cases hka : k = a
    · subst hka
      simp at hk
    · rw [AList.lookup_erase_ne hka] at hk
      exact hw k c hk
  have hsub := total_erase weight ha
  omega

/-- Adding up the values of the members of a list that enumerates the hash once
gives the total. -/
theorem foldl_lookup_eq_total (weight : β → Int) {members : List α} (hnodup : members.Nodup)
    (hmem : ∀ a, a ∈ members ↔ a ∈ h) :
    members.foldl (fun acc a => acc + ((h.lookup a).map weight).getD 0) 0 = total weight h := by
  have hkeys : members.Perm h.keys :=
    (List.perm_ext_iff_of_nodup hnodup h.keys_nodup).mpr fun a => (hmem a).trans AList.mem_keys
  have hsum : ∀ (l : List α) (z : Int),
      l.foldl (fun acc a => acc + ((h.lookup a).map weight).getD 0) z =
        z + (l.map fun a => ((h.lookup a).map weight).getD 0).sum := by
    intro l
    induction l with
    | nil => simp
    | cons a l ih =>
      intro z
      simp only [List.foldl_cons, List.map_cons, List.sum_cons, ih]
      omega
  have hentries : ∀ e ∈ h.entries, ((h.lookup e.1).map weight).getD 0 = weight e.2 := by
    rintro ⟨k, b⟩ hb
    have hlook : h.lookup k = some b := AList.mem_lookup_iff.mpr hb
    simp [hlook]
  rw [hsum, Int.zero_add, (hkeys.map _).sum_eq, AList.keys, List.keys, List.map_map, total]
  exact congrArg List.sum (List.map_congr_left hentries)

end Orditect.Support.Totals
