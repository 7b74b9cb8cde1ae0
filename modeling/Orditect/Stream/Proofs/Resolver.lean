import Orditect.Stream.Resolver
/-!
# One placeholder does not keep the others from being resolved

What escapes a coroutine takes the whole `gather` down, so each coroutine has to come to its
callback.
-/

namespace Orditect.Stream.Resolver.Proofs

open Executor (truthy)
open Support.Loop Support.LuaJson

variable {τ ν : Type} [LinearOrder τ] [Add τ] [DecidableEq ν] [LuaNumber ν]
  {r : ManifestResolver τ} {p : Placeholder × Env τ ν} {n : Nat}

/-- The answers `_query_once` has no branch for. -/
def Malformed (r : ManifestResolver τ) : Answer ν → Prop
  | .raises caught => caught = false
  | .missing => False
  | .task status result =>
    status ∈ r.successWords ∧ truthy (some result) = true ∧ ∀ fields, result ≠ .obj fields

def Asked (r : ManifestResolver τ) (p : Placeholder × Env τ ν) (n : Nat) : Prop :=
  r.queries p.1.taskRef = true ∧ before r p n = true ∧ ∀ m < n, queried r p m = .continues

theorem urlOf_ne_raises (fields : List (String × Json ν)) : urlOf fields ≠ .raises := by
  unfold urlOf
  dsimp only
  split <;> simp

omit [LinearOrder τ] [Add τ] in
theorem queryOnce_eq_raises_iff {taskRef : String} {answer : Answer ν} :
    queryOnce r taskRef answer = .raises ↔ r.queries taskRef = true ∧ Malformed r answer := by
  unfold queryOnce
  split_ifs with hqueries
  · cases answer with
    | raises caught => cases caught <;> simp [Malformed, hqueries]
    | missing => simp [Malformed]
    | task status result =>
      by_cases hstatus : status ∈ r.successWords
      · cases result with
        | obj fields => simp [Malformed, hstatus, urlOf_ne_raises]
        | _ => simp [Malformed, hstatus, hqueries]
      · simp only [Malformed, hstatus, if_false, false_and, and_false, iff_false]
        split_ifs <;> nofun
  · simp [hqueries]

theorem again_eq_some_iff {m : Nat} :
    again r p n = some m ↔ before r p n = true ∧ queried r p n = .continues ∧ m = n + 1 := by
  unfold again
  cases before r p n <;> cases queried r p n <;> simp [eq_comm]

omit [DecidableEq ν] [LuaNumber ν] in
theorem before_of_le {m : Nat} (hle : m ≤ n) (h : before r p n = true) : before r p m = true :=
  decide_eq_true ((p.2.monotone (by omega)).trans_lt (of_decide_eq_true h))

def Ends {α : Type} (f : Nat → Option α) (a : α) : Prop := ∃ n, ∀ fuel, n ≤ fuel → f fuel = some a

def Safe (r : ManifestResolver τ) (p : Placeholder × Env τ ν) : Prop :=
  ∀ n, Asked r p n → ¬Malformed r (p.2.answer n)

theorem pollTask_spec (r : ManifestResolver τ) (p : Placeholder × Env τ ν) :
    ∃ outcome, Ends (pollTask r p) outcome ∧ (outcome ≠ .raises ↔ Safe r p) := by
  obtain ⟨last, hlast⟩ := p.2.advances (p.2.time 0 + r.maxWait)
  have hround : ∀ n n', (∀ m < n, queried r p m = .continues) → again r p n = some n' →
      (∀ m < n', queried r p m = .continues) ∧ last - n' < last - n := by
    intro n n' hn hnext
    obtain ⟨hopen, hcontinues, rfl⟩ := again_eq_some_iff.mp hnext
    have hlt : n + 1 < last := lt_of_not_ge fun hge =>
      absurd (of_decide_eq_true hopen) (hlast.trans (p.2.monotone hge)).not_gt
    refine ⟨fun m hm => ?_, by omega⟩
    rcases Nat.lt_succ_iff_lt_or_eq.mp hm with hm | rfl
    · exact hn m hm
    · exact hcontinues
  obtain ⟨t, hbefore, hend, fuel, hfuel⟩ := loop_terminates (last - ·) hround (s := 0) (by simp)
  refine ⟨if before r p t then queried r p t else .failed, ⟨fuel, fun m hm => ?_⟩, ?_, ?_⟩
  · rw [pollTask, hfuel m hm, Option.map_some]
  · rintro hreturns n ⟨hqueries, hopen, hasked⟩ hmalformed
    have hraises : queried r p n = .raises := queryOnce_eq_raises_iff.mpr ⟨hqueries, hmalformed⟩
    -- the loop is left at this query, neither before nor after it
    obtain rfl : t = n := by
      rcases Nat.lt_trichotomy t n with hlt | heq | hlt
      · have hgoes := again_eq_some_iff.mpr ⟨before_of_le hlt.le hopen, hasked t hlt, rfl⟩
        exact absurd (hend.symm.trans hgoes) nofun
      · exact heq
      · exact absurd (hraises.symm.trans (hbefore n hlt)) nofun
    exact hreturns ((if_pos hopen).trans hraises)
  · intro hsafe hraises
    split_ifs at hraises with hopen
    obtain ⟨hqueries, hmalformed⟩ := queryOnce_eq_raises_iff.mp hraises
    exact hsafe t ⟨hqueries, hopen, hbefore⟩ hmalformed

theorem gather_spec (r : ManifestResolver τ) (ps : List (Placeholder × Env τ ν)) :
    ∃ result, Ends (gather r · ps) result ∧
      ((∃ calls, result = .ok calls ∧
        calls.map Prod.fst = ps.map fun p => p.1.placeholderId) ↔ ∀ p ∈ ps, Safe r p) := by
  induction ps with
  | nil => exact ⟨.ok [], ⟨0, fun _ _ => rfl⟩, by simp⟩
  | cons p ps ih =>
    obtain ⟨outcome, ⟨n, hn⟩, hsafe⟩ := pollTask_spec r p
    obtain ⟨result, ⟨m, hm⟩, hrest⟩ := ih
    refine ⟨do return (← resolveOne p outcome) :: (← result), ⟨max n m, fun fuel hle => ?_⟩, ?_⟩
    · simp only [gather, hn fuel (le_of_max_le_left hle), hm fuel (le_of_max_le_right hle)]
    · rw [List.forall_mem_cons, ← hsafe, ← hrest]
      cases outcome <;> cases result <;>
        simp [resolveOne, bind, Except.bind, pure, Except.pure]

/-- Every coroutine comes to an end; none raises, and each makes its call, exactly if no query
that is made gets an answer that escapes. -/
theorem resolved_iff (r : ManifestResolver τ) (placeholders : List (Placeholder × Env τ ν)) :
    (∃ calls, Ends (resolveAll r · placeholders) (.ok calls) ∧
        calls.map Prod.fst = (pendings placeholders).map fun p => p.1.placeholderId) ↔
      ∀ p ∈ pendings placeholders, ∀ n, Asked r p n → ¬Malformed r (p.2.answer n) := by
  obtain ⟨result, hends, hsafe⟩ := gather_spec r (pendings placeholders)
  refine Iff.trans ⟨?_, ?_⟩ hsafe
  · rintro ⟨calls, ⟨n, hn⟩, hids⟩
    obtain ⟨m, hm⟩ := hends
    refine ⟨calls, ?_, hids⟩
    exact Option.some.inj ((hm _ (le_max_right n m)).symm.trans (hn _ (le_max_left n m)))
  · rintro ⟨calls, rfl, hids⟩
    exact ⟨calls, hends, hids⟩

def succeeded (result : Json Int) : Env Nat Int :=
  ⟨id, fun _ => .task "succeeded" result, monotone_id, fun t => ⟨t, le_rfl⟩⟩

/-- One record has a text for its result, so the other placeholder gets no call. -/
theorem gather_raises :
    resolveAll { query := true, maxWait := 3 } 1
      [(⟨"a", "pending", "tf:1"⟩, succeeded (.obj [("url", .str "u")])),
        (⟨"b", "pending", "tf:2"⟩, succeeded (.str "u"))] = some (.error ()) :=
  rfl

end Orditect.Stream.Resolver.Proofs
