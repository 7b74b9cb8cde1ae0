import Mathlib.Data.Finset.Card
import Mathlib.Data.List.Sort
/-!
# Plain sets of a key-value server

A set key holds a finite set; reading it yields the members in ascending order, so that
a reader that walks them visits each one exactly once.
-/

namespace Orditect.Support.PlainSet

variable {α : Type*} [LinearOrder α]

/-- `sorted(SMEMBERS key)`. -/
def sortedMembers (s : Finset α) : List α :=
  Quot.liftOn s.val (List.insertionSort (· ≤ ·)) fun _ _ h =>
    (((List.perm_insertionSort _ _).trans h).trans
      (List.perm_insertionSort _ _).symm).eq_of_pairwise' (r := (· ≤ ·))
      (List.pairwise_insertionSort _ _) (List.pairwise_insertionSort _ _)

theorem coe_sortedMembers (s : Finset α) : (sortedMembers s : Multiset α) = s.val := by
  obtain ⟨⟨l⟩, hl⟩ := s
  exact Quot.sound (List.perm_insertionSort _ l)

@[simp] theorem mem_sortedMembers {s : Finset α} {a : α} : a ∈ sortedMembers s ↔ a ∈ s := by
  rw [← Multiset.mem_coe, coe_sortedMembers, Finset.mem_val]

theorem nodup_sortedMembers (s : Finset α) : (sortedMembers s).Nodup := by
  rw [← Multiset.coe_nodup, coe_sortedMembers]
  exact s.nodup

/-- Dropping the later occurrences leaves every member once. -/
theorem nodup_eraseDups {β : Type*} [DecidableEq β] (l : List β) : l.eraseDups.Nodup := by
  induction hn : l.length using Nat.strongRecOn generalizing l with
  | _ n ih =>
    cases l with
    | nil => simp
    | cons b l =>
      rw [List.eraseDups_cons, List.nodup_cons]
      refine ⟨by simp, ih _ ?_ _ rfl⟩
      have hle := List.length_filter_le (fun c => !c == b) l
      simp only [List.length_cons] at hn
      omega

end Orditect.Support.PlainSet
