import Mathlib.Data.List.Chain
import Mathlib.Data.Set.Insert
/-!
# Cycles of a directed graph

A closed path is what a search reports; a set that is closed under the edges and on no
cycle is what it has finished with.
-/

namespace Orditect.Support.Digraph

open Relation

variable {α : Type*} {r : α → α → Prop}

/-- A path along the edges that ends where it began and meets no other node twice. -/
structure ClosedPath (r : α → α → Prop) (path : List α) : Prop where
  chain : path.IsChain r
  closed : ∃ a mid, path = a :: (mid ++ [a]) ∧ (a :: mid).Nodup

theorem ClosedPath.transGen {path : List α} (h : ClosedPath r path) : ∃ a, TransGen r a a := by
  obtain ⟨a, mid, rfl, -⟩ := h.closed
  have hchain := h.chain
  refine ⟨a, ?_⟩
  cases mid with
  | nil => exact .single ((List.isChain_cons_cons.mp hchain).1)
  | cons b mid =>
    obtain ⟨hab, hrest⟩ := List.isChain_cons_cons.mp hchain
    refine .head' hab ?_
    exact List.relationReflTransGen_of_exists_isChain_cons (mid ++ [a]) hrest (by simp)

/-- The part of a path that starts at `p`, closed by an edge from its end back to `p`. -/
theorem ClosedPath.of_back_edge [DecidableEq α] {path : List α} {last p : α}
    (hchain : (path ++ [last]).IsChain r) (hnodup : (path ++ [last]).Nodup)
    (hp : p ∈ path ++ [last]) (hback : r last p) :
    ClosedPath r ((path ++ [last]).drop ((path ++ [last]).idxOf p) ++ [p]) := by
  obtain ⟨before, after, hsplit, hnot⟩ := List.eq_append_cons_of_mem hp
  have hdrop : (path ++ [last]).drop ((path ++ [last]).idxOf p) = p :: after := by
    rw [hsplit, List.idxOf_append_of_notMem hnot, List.idxOf_cons_self, Nat.add_zero,
      List.drop_left]
  have hlast : (p :: after).getLast? = some last := by
    have := congrArg List.getLast? hsplit
    simpa using this.symm
  rw [hsplit] at hchain hnodup
  rw [hdrop]
  refine ⟨?_, p, after, by simp, (List.nodup_append.mp hnodup).2.1⟩
  refine List.isChain_append.mpr ⟨hchain.right_of_append, List.isChain_singleton p, ?_⟩
  intro x hx y hy
  rw [hlast] at hx
  obtain rfl : last = x := by simpa using hx
  obtain rfl : p = y := by simpa using hy
  exact hback

/-- A set the search is done with: no edge leaves it and no cycle meets it. -/
structure Finished (r : α → α → Prop) (V : Set α) : Prop where
  closed : ∀ v ∈ V, ∀ w, r v w → w ∈ V
  acyclic : ∀ v ∈ V, ¬ TransGen r v v

theorem finished_empty : Finished r ∅ :=
  ⟨fun _ h => absurd h (Set.notMem_empty _), fun _ h => absurd h (Set.notMem_empty _)⟩

theorem Finished.reflTransGen_mem {V : Set α} (h : Finished r V) {v w : α} (hv : v ∈ V)
    (hvw : ReflTransGen r v w) : w ∈ V := by
  induction hvw with
  | refl => exact hv
  | tail _ hstep ih => exact h.closed _ ih _ hstep

/-- The rule of a finished node: all it points at is finished. -/
theorem Finished.insert {V : Set α} (h : Finished r V) {n : α} (hn : n ∉ V)
    (hnext : ∀ w, r n w → w ∈ V) : Finished r (insert n V) where
  closed := by
    rintro v (rfl | hv) w hvw
    · exact Or.inr (hnext w hvw)
    · exact Or.inr (h.closed v hv w hvw)
  acyclic := by
    rintro v (rfl | hv) hcycle
    · obtain ⟨w, hvw, hback⟩ := TransGen.head'_iff.mp hcycle
      exact hn (h.reflTransGen_mem (hnext w hvw) hback)
    · exact h.acyclic v hv hcycle

end Orditect.Support.Digraph
