import Orditect.Governance.Governor
/-!
# The votes that reach the threshold

`vote_and_check_threshold` answers from the size of the set of votes after its own was added.
Where the threshold is the number of parents, the answer is that all of them have voted by
then, so every call from the completing one on is told that the threshold was reached.
-/

namespace Orditect.Governance.Proofs

variable {s : Store} {childId : String} {parents : Finset String} {votes : List String}

def answers (childId : String) (threshold : Nat) : List String → Store → List Bool
  | [], _ => []
  | parentId :: votes, s =>
    let (reached, store) := s.voteAndCheckThreshold childId parentId threshold
    reached :: answers childId threshold votes store

theorem answers_concat (threshold : Nat) (votes : List String) (parentId : String) (s : Store) :
    answers childId threshold (votes ++ [parentId]) s =
      answers childId threshold votes s ++
        [decide (threshold ≤
          (s.cancelVotes childId ∪ (votes ++ [parentId]).toFinset).card)] := by
  induction votes generalizing s with
  | nil => simp [answers, Store.voteAndCheckThreshold]
  | cons first votes ih =>
    simp only [List.cons_append, answers, Store.voteAndCheckThreshold, ih,
      Function.update_self, List.toFinset_cons, Finset.insert_union, Finset.union_insert]

theorem toFinset_subset_concat (votes : List String) (parentId : String) :
    votes.toFinset ⊆ (votes ++ [parentId]).toFinset := by
  intro p hp
  simp only [List.mem_toFinset, List.mem_append] at hp ⊢
  exact Or.inl hp

theorem card_le_iff_all_voted (hvotes : votes.toFinset ⊆ parents) :
    parents.card ≤ votes.toFinset.card ↔ parents ⊆ votes.toFinset := by
  constructor
  · intro hcard
    exact (Finset.eq_of_subset_of_card_le hvotes hcard).ge
  · exact Finset.card_le_card

section

variable (hempty : s.cancelVotes childId = ∅)
include hempty

theorem answers_eq_concat {parentId : String} (hvotes : (votes ++ [parentId]).toFinset ⊆ parents) :
    answers childId parents.card (votes ++ [parentId]) s =
      answers childId parents.card votes s ++
        [decide (parents ⊆ (votes ++ [parentId]).toFinset)] := by
  rw [answers_concat, hempty, Finset.empty_union]
  simp only [card_le_iff_all_voted hvotes]

theorem count_of_some_missing (hvotes : votes.toFinset ⊆ parents)
    (hmissing : ¬parents ⊆ votes.toFinset) :
    (answers childId parents.card votes s).count true = 0 := by
  induction votes using List.reverseRecOn with
  | nil => rfl
  | append_singleton votes parentId ih =>
    have hearlier := toFinset_subset_concat votes parentId
    rw [answers_eq_concat hempty hvotes, List.count_append,
      ih (hearlier.trans hvotes) fun hall => hmissing (hall.trans hearlier),
      decide_eq_false hmissing]
    rfl

theorem count_pos_of_all_voted (hparents : parents.Nonempty) (hvotes : votes.toFinset ⊆ parents)
    (hall : parents ⊆ votes.toFinset) :
    0 < (answers childId parents.card votes s).count true := by
  rcases List.eq_nil_or_concat' votes with rfl | ⟨votes, parentId, rfl⟩
  · exact absurd (Finset.subset_empty.mp hall) hparents.ne_empty
  · rw [answers_eq_concat hempty hvotes, List.count_append, decide_eq_true hall]
    exact Nat.succ_pos _

end

def NoneVotesAfterAll (parents : Finset String) (votes : List String) : Prop :=
  ∀ before after, votes = before ++ after → parents ⊆ before.toFinset → after = []

theorem noneVotesAfterAll_nil : NoneVotesAfterAll parents [] := by
  intro before after hsplit _
  exact (List.append_eq_nil_iff.mp hsplit.symm).2

theorem noneVotesAfterAll_concat_iff {parentId : String} :
    NoneVotesAfterAll parents (votes ++ [parentId]) ↔ ¬parents ⊆ votes.toFinset := by
  constructor
  · intro h hall
    exact absurd (h votes [parentId] rfl hall) (by simp)
  · intro hmissing before after hsplit hall
    rcases List.eq_nil_or_concat' after with rfl | ⟨after, last, rfl⟩
    · rfl
    · rw [← List.append_assoc] at hsplit
      obtain ⟨rfl, -⟩ := List.append_inj' hsplit rfl
      refine absurd (hall.trans fun p hp => ?_) hmissing
      simp only [List.mem_toFinset, List.mem_append] at hp ⊢
      exact Or.inl hp

/-- Of the votes of the parents against a child, one is told that it reached the threshold if
all of them have voted, and otherwise none, exactly if nobody votes after all have. -/
theorem crossed_once_iff (hempty : s.cancelVotes childId = ∅) (hparents : 1 ≤ parents.card)
    (hvotes : ∀ p ∈ votes, p ∈ parents) :
    (answers childId parents.card votes s).count true =
        (if parents ⊆ votes.toFinset then 1 else 0) ↔
      NoneVotesAfterAll parents votes := by
  have hnonempty : parents.Nonempty := Finset.card_pos.mp hparents
  replace hvotes : votes.toFinset ⊆ parents := fun p hp => hvotes p (List.mem_toFinset.mp hp)
  rcases List.eq_nil_or_concat' votes with rfl | ⟨votes, parentId, rfl⟩
  · have hmissing : ¬parents ⊆ ([] : List String).toFinset :=
      fun hall => hnonempty.ne_empty (Finset.subset_empty.mp hall)
    rw [count_of_some_missing hempty hvotes hmissing, if_neg hmissing]
    exact iff_of_true rfl noneVotesAfterAll_nil
  · have hearlier := toFinset_subset_concat votes parentId
    rw [noneVotesAfterAll_concat_iff, answers_eq_concat hempty hvotes, List.count_append]
    by_cases hall : parents ⊆ votes.toFinset
    · -- the last call is told again what an earlier one was told
      have hbefore := count_pos_of_all_voted hempty hnonempty (hearlier.trans hvotes) hall
      rw [if_pos (hall.trans hearlier), decide_eq_true (hall.trans hearlier)]
      simp only [List.count_singleton_self]
      exact iff_of_false (by omega) (fun h => h hall)
    · rw [count_of_some_missing hempty (hearlier.trans hvotes) hall]
      refine iff_of_true ?_ hall
      by_cases hlast : parents ⊆ (votes ++ [parentId]).toFinset
      · rw [if_pos hlast, decide_eq_true hlast]
        rfl
      · rw [if_neg hlast, decide_eq_false hlast]
        rfl

/-- Two parents, one of which votes twice before the other does. -/
theorem crossed_once_three_votes :
    (answers "c" 2 ["a", "a", "b"] (Store.created ["c"])).count true = 1 := by
  have hlate : NoneVotesAfterAll {"a", "b"} (["a", "a"] ++ ["b"]) :=
    noneVotesAfterAll_concat_iff.mpr (by decide)
  exact (@crossed_once_iff _ "c" {"a", "b"} _ rfl (by decide) (by decide)).mpr hlate

/-- One of two parents votes again after both have. -/
theorem crossed_twice :
    (answers "c" 2 ["a", "b", "a"] (Store.created ["c"])).count true = 2 := by
  decide

end Orditect.Governance.Proofs
