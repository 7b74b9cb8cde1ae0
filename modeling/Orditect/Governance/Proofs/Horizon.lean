import Mathlib.Data.List.Perm.Subperm
import Orditect.Governance.Solo
import Orditect.Governance.Proofs.Growth
/-!
# Cycles within the horizon of a registration

`_assert_no_cycle` searches the ancestors of the parents depth first, with one visited set
for the whole search and a bound on the depth.  A task that it first meets far down is
expanded there, and not again when it is met closer to the parents, so what lies behind it
may be within the bound and is never looked at.  Where every way from a parent to a task
that leads to the child stays above the bound, nothing is lost.
-/

namespace Orditect.Governance

namespace Proofs

open Support.Loop

variable {cfg : Config} {req : Request} {recs : List (String × Record)} {s : Store}
  {child : String}

def references (s : Store) (task : String) : List String :=
  (s.getTask task).dependsOn.reverse ++
    ((s.getTask task).parentTaskId.filter fun ref => decide (ref ≠ "")).toList

def ReachesWithin (s : Store) (child : String) : Nat → String → Prop
  | 0, task => task = child
  | n + 1, task => task = child ∨ ∃ ref ∈ references s task, ReachesWithin s child n ref

/-- A way along the references from a parent to its first task, last task first, that
comes to no task twice. -/
inductive Trail (cfg : Config) (s : Store) : List String → Prop
  | parent {task : String} (hparent : task ∈ cfg.parents) : Trail cfg s [task]
  | step {task ref : String} {path : List String} (htrail : Trail cfg s (task :: path))
      (href : ref ∈ references s task) (hnew : ref ∉ task :: path) :
      Trail cfg s (ref :: task :: path)

def Upstream (s : Store) (child task : String) : Prop :=
  task ≠ child ∧ ∃ n, ReachesWithin s child n task

def Shallow (cfg : Config) (s : Store) : Prop :=
  ∀ task path, Trail cfg s (task :: path) → Upstream s cfg.child task →
    path.length < maxLineageDepth

def expand (s : Store) : Nat → List String → String → List String
  | 0, visited, _ => visited
  | n + 1, visited, task =>
    if task ∈ visited then visited
    else (references s task).foldl (expand s n) (task :: visited)

theorem subset_expand (n : Nat) (visited : List String) (task : String) :
    visited ⊆ expand s n visited task := by
  induction n generalizing visited task with
  | zero => exact List.Subset.refl _
  | succ n ih =>
    unfold expand
    split
    · exact List.Subset.refl _
    · have hfold : ∀ (refs visited : List String), visited ⊆ refs.foldl (expand s n) visited := by
        intro refs
        induction refs with
        | nil => exact fun _ => List.Subset.refl _
        | cons ref refs ihr => exact fun visited => List.Subset.trans (ih visited ref) (ihr _)
      exact List.Subset.trans (List.subset_cons_self task visited) (hfold _ _)

theorem subset_foldl_expand (n : Nat) (tasks visited : List String) :
    visited ⊆ tasks.foldl (expand s n) visited := by
  induction tasks generalizing visited with
  | nil => exact List.Subset.refl _
  | cons task tasks ih => exact List.Subset.trans (subset_expand n visited task) (ih _)

def Met (s : Store) (child : String) (n : Nat) (visited tasks : List String) : Prop :=
  child ∈ tasks ∨
    ∃ task ∈ tasks.foldl (expand s n) visited, task ∉ visited ∧ child ∈ references s task

variable {n : Nat} {visited : List String} {task : String} {tasks : List String} {depth : Nat}
  {stack rest : List (String × Nat)}

theorem met_cons_skip (hne : task ≠ child) (hskip : expand s n visited task = visited) :
    Met s child n visited (task :: tasks) ↔ Met s child n visited tasks := by
  simp only [Met, List.mem_cons, hne.symm, false_or, List.foldl_cons, hskip]

theorem met_cons_expand (hne : task ≠ child) (hnew : task ∉ visited) :
    Met s child (n + 1) visited (task :: tasks) ↔
      Met s child n (task :: visited) (references s task) ∨
        Met s child (n + 1) (expand s (n + 1) visited task) tasks := by
  have hexpand : expand s (n + 1) visited task =
      (references s task).foldl (expand s n) (task :: visited) := by
    rw [expand, if_neg hnew]
  have hself : task ∈ expand s (n + 1) visited task := by
    rw [hexpand]
    exact subset_foldl_expand _ _ _ List.mem_cons_self
  constructor
  · rintro (hin | ⟨t, ht, hnot, href⟩)
    · exact Or.inr (Or.inl ((List.mem_cons.mp hin).resolve_left hne.symm))
    · by_cases hfirst : t ∈ expand s (n + 1) visited task
      · rw [hexpand] at hfirst
        by_cases heq : t = task
        · exact Or.inl (Or.inl (heq ▸ href))
        · refine Or.inl (Or.inr ⟨t, hfirst, ?_, href⟩)
          exact fun hin => (List.mem_cons.mp hin).elim heq hnot
      · exact Or.inr (Or.inr ⟨t, ht, hfirst, href⟩)
  · rintro ((href | ⟨t, ht, hnot, href⟩) | (hin | ⟨t, ht, hnot, href⟩))
    · exact Or.inr ⟨task, subset_foldl_expand (n + 1) tasks _ hself, hnew, href⟩
    · rw [← hexpand] at ht
      refine Or.inr ⟨t, subset_foldl_expand (n + 1) tasks _ ht, fun hin => hnot ?_, href⟩
      exact List.mem_cons_of_mem _ hin
    · exact Or.inl (List.mem_cons_of_mem _ hin)
    · exact Or.inr ⟨t, ht, fun hin => hnot (subset_expand _ _ _ hin), href⟩

theorem next_checkCycle_skip {writes : Nat} (hne : task ≠ cfg.child)
    (hskip : task ∈ visited ∨ maxLineageDepth ≤ depth) :
    Solo.next cfg ⟨.checkCycle req recs ((task, depth) :: stack) visited, s, writes⟩ =
      some ⟨.checkCycle req recs stack visited, s, writes⟩ := by
  simp [Solo.next, Registration.next, Registration.isWrite, hne, hskip]

theorem next_checkCycle_expand {writes : Nat} (hne : task ≠ cfg.child) (hnew : task ∉ visited)
    (hdepth : depth < maxLineageDepth) :
    Solo.next cfg ⟨.checkCycle req recs ((task, depth) :: stack) visited, s, writes⟩ =
      some ⟨.checkCycle req recs
        ((references s task).map (fun ref => (ref, depth + 1)) ++ stack) (task :: visited), s,
        writes⟩ := by
  have hgo : ¬ (task ∈ visited ∨ maxLineageDepth ≤ depth) :=
    not_or.mpr ⟨hnew, Nat.not_le.mpr hdepth⟩
  simp only [Solo.next, Registration.next, hne, hgo, if_false]
  rfl

section Search

variable (cfg req recs s) (writes : Nat)

def searchAt (stack : List (String × Nat)) (visited : List String) : Solo :=
  ⟨.checkCycle req recs stack visited, s, writes⟩

def level (n : Nat) (tasks : List String) : List (String × Nat) :=
  tasks.map fun task => (task, maxLineageDepth - n)

/-- The search through the tasks on top of the stack either comes across the child, or
goes on below them with what they lead to visited. -/
def Searches (n : Nat) (visited tasks : List String) (rest : List (String × Nat)) : Prop :=
  (Met s cfg.child n visited tasks ∧
    Leads (Solo.next cfg) (searchAt req recs s writes (level n tasks ++ rest) visited)
      ⟨.raised (.cycle cfg.child), s, writes⟩) ∨
  (¬ Met s cfg.child n visited tasks ∧
    Leads (Solo.next cfg) (searchAt req recs s writes (level n tasks ++ rest) visited)
      (searchAt req recs s writes rest (tasks.foldl (expand s n) visited)))

end Search

variable {writes : Nat}

theorem Searches.skip (hne : task ≠ cfg.child) (hskip : task ∈ visited ∨ n = 0)
    (h : Searches cfg req recs s writes n visited tasks rest) :
    Searches cfg req recs s writes n visited (task :: tasks) rest := by
  have hexpand : expand s n visited task = visited := by
    cases n with
    | zero => rfl
    | succ n => rw [expand, if_pos (hskip.resolve_right (Nat.succ_ne_zero n))]
  have hstep : Solo.next cfg (searchAt req recs s writes (level n (task :: tasks) ++ rest)
      visited) = some (searchAt req recs s writes (level n tasks ++ rest) visited) := by
    refine next_checkCycle_skip hne (hskip.imp_right fun hn => ?_)
    rw [hn, Nat.sub_zero]
  rw [Searches, met_cons_skip hne hexpand, List.foldl_cons, hexpand]
  exact h.imp (fun h => ⟨h.1, .step hstep h.2⟩) (fun h => ⟨h.1, .step hstep h.2⟩)

theorem Searches.expand (hn : n < maxLineageDepth) (hne : task ≠ cfg.child)
    (hnew : task ∉ visited)
    (hbehind : Searches cfg req recs s writes n (task :: visited) (references s task)
      (level (n + 1) tasks ++ rest))
    (hbeside : Searches cfg req recs s writes (n + 1) (expand s (n + 1) visited task) tasks rest) :
    Searches cfg req recs s writes (n + 1) visited (task :: tasks) rest := by
  have hexpand : Proofs.expand s (n + 1) visited task =
      (references s task).foldl (Proofs.expand s n) (task :: visited) := by
    rw [Proofs.expand, if_neg hnew]
  have hstep : Solo.next cfg (searchAt req recs s writes (level (n + 1) (task :: tasks) ++ rest)
      visited) = some (searchAt req recs s writes
        (level n (references s task) ++ (level (n + 1) tasks ++ rest)) (task :: visited)) := by
    have hdepth : maxLineageDepth - n = maxLineageDepth - (n + 1) + 1 := by omega
    rw [level, level, hdepth]
    exact next_checkCycle_expand hne hnew (by omega)
  rw [Searches, met_cons_expand hne hnew, List.foldl_cons]
  rcases hbehind with ⟨hmet, hleads⟩ | ⟨hmet, hleads⟩
  · exact Or.inl ⟨Or.inl hmet, .step hstep hleads⟩
  · rw [← hexpand] at hleads
    rcases hbeside with ⟨hmet', hleads'⟩ | ⟨hmet', hleads'⟩
    · exact Or.inl ⟨Or.inr hmet', .step hstep (hleads.trans hleads')⟩
    · exact Or.inr ⟨not_or.mpr ⟨hmet, hmet'⟩, .step hstep (hleads.trans hleads')⟩

/-- The search has been through what the tasks in `visited` refer to, except where it is
still on its way. -/
def Closed (s : Store) (child : String) (path visited : List String) : Prop :=
  ∀ task ∈ visited, task ∉ path → ∀ ref ∈ references s task, Upstream s child ref → ref ∈ visited

theorem Trail.nodup {path : List String} (h : Trail cfg s path) : path.Nodup := by
  induction h with
  | parent => simp
  | step _ _ hnew ih => exact List.nodup_cons.mpr ⟨hnew, ih⟩

theorem Trail.recorded {path : List String} (h : Trail cfg s path) :
    ∀ task ∈ path.tail, (s.records task).isSome = true := by
  induction h with
  | parent => simp
  | @step task ref path _ href _ ih =>
    refine List.forall_mem_cons.mpr ⟨?_, ih⟩
    by_contra hnone
    simp [references, Store.getTask, Option.not_isSome_iff_eq_none.mp hnone] at href

end Proofs

end Orditect.Governance
