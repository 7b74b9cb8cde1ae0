import Orditect.Support.Levels
import Orditect.Workflow.Groups
/-!
# The groups are the levels

After `k` rounds the steps that are done are those below which no chain of dependencies has
`k` links.  So the next round takes those whose longest chain has exactly `k`, and a round that
finds none has no step left.
-/

namespace Orditect.Workflow.Proofs

open Support.Levels Support.Loop

variable {dag : DAG} {k : Nat} {completed : Finset String} {step : WorkflowStep}
  {s s' : DAG.Grouping}

theorem dependsOn_name (hstep : step ∈ dag.steps) {dep : String} :
    DependsOn dag.steps step.name dep ↔ dep ∈ step.dependencies := by
  constructor
  · rintro ⟨other, hother, hname, hdep⟩
    rwa [← List.inj_on_of_nodup_map dag.nodup hother hstep hname]
  · intro hdep
    exact ⟨step, hstep, rfl, hdep⟩

def Done (dag : DAG) (k : Nat) (completed : Finset String) : Prop :=
  ∀ name, name ∈ completed ↔
    name ∈ dag.steps.map WorkflowStep.name ∧ Shallow (DependsOn dag.steps) k name

def AllShallow (dag : DAG) (k : Nat) : Prop :=
  ∀ name ∈ dag.steps.map WorkflowStep.name, Shallow (DependsOn dag.steps) k name

theorem Done.mem_getReadySteps (h : Done dag k completed) :
    step ∈ dag.getReadySteps completed ↔
      step ∈ dag.steps ∧ Height (DependsOn dag.steps) step.name k := by
  simp only [DAG.getReadySteps, List.mem_filter, decide_eq_true_eq, height_iff, shallow_succ]
  refine and_congr_right fun hstep => and_congr ?_ ?_
  · rw [h, not_and]
    exact ⟨fun hnot => hnot (List.mem_map_of_mem hstep), fun hnot _ => hnot⟩
  · simp only [dependsOn_name hstep]
    refine forall₂_congr fun dep hdep => ?_
    rw [h, and_iff_right (dag.closed step hstep dep hdep)]

theorem Done.next (h : Done dag k completed) :
    Done dag (k + 1)
      (completed ∪ ((dag.getReadySteps completed).map WorkflowStep.name).toFinset) := by
  intro name
  rw [Finset.mem_union, List.mem_toFinset, h]
  constructor
  · rintro (⟨hname, hshallow⟩ | hready)
    · exact ⟨hname, hshallow.mono (Nat.le_succ k)⟩
    · obtain ⟨step, hstep, rfl⟩ := List.mem_map.mp hready
      obtain ⟨hmem, hheight⟩ := h.mem_getReadySteps.mp hstep
      exact ⟨List.mem_map_of_mem hmem, (height_iff.mp hheight).2⟩
  · rintro ⟨hname, hshallow⟩
    by_cases hk : Shallow (DependsOn dag.steps) k name
    · exact Or.inl ⟨hname, hk⟩
    · obtain ⟨step, hstep, rfl⟩ := List.mem_map.mp hname
      refine Or.inr (List.mem_map_of_mem (h.mem_getReadySteps.mpr ⟨hstep, ?_⟩))
      exact height_iff.mpr ⟨hk, hshallow⟩

/-- When no step is ready, none is left: what depends on shallow steps only would be ready. -/
theorem Done.all_of_none_ready (h : Done dag k completed)
    (hready : dag.getReadySteps completed = []) : AllShallow dag k := by
  refine acyclic_induction (fun name _ => dag.acyclic name) fun name hname ih => ?_
  obtain ⟨step, hstep, rfl⟩ := List.mem_map.mp hname
  by_contra hdeep
  have hlevel : Height (DependsOn dag.steps) step.name k := by
    refine height_iff.mpr ⟨hdeep, shallow_succ.mpr fun dep hdep => ?_⟩
    exact ih dep (dag.closed step hstep dep ((dependsOn_name hstep).mp hdep)) hdep
  have hmem := h.mem_getReadySteps.mpr ⟨hstep, hlevel⟩
  rw [hready] at hmem
  exact List.not_mem_nil hmem

theorem Done.all_of_card (h : Done dag k completed) (hcard : dag.steps.length ≤ completed.card) :
    AllShallow dag k := by
  have hsub : completed ⊆ (dag.steps.map WorkflowStep.name).toFinset := fun name hname =>
    List.mem_toFinset.mpr ((h name).mp hname).1
  have heq := Finset.eq_of_subset_of_card_le hsub (by
    rw [List.toFinset_card_of_nodup dag.nodup, List.length_map]
    exact hcard)
  intro name hname
  exact ((h name).mp (heq ▸ List.mem_toFinset.mpr hname)).2

/-- Every group so far is the level of its place. -/
structure Levelled (dag : DAG) (s : DAG.Grouping) : Prop where
  done : Done dag s.groups.length s.completed
  groups : ∀ i group, s.groups[i]? = some group →
    group ≠ [] ∧ group.Nodup ∧
      ∀ step, step ∈ group ↔ step ∈ dag.steps ∧ Height (DependsOn dag.steps) step.name i

theorem levelled_start (dag : DAG) : Levelled dag ⟨[], ∅⟩ where
  done := fun name => by simp [not_shallow_zero]
  groups := by simp

theorem Levelled.round (h : Levelled dag s) (hnext : dag.nextGroup s = some s') :
    Levelled dag s' ∧ dag.steps.length - s'.completed.card <
      dag.steps.length - s.completed.card := by
  unfold DAG.nextGroup at hnext
  split at hnext
  · rename_i hless
    split at hnext
    · simp at hnext
    · rename_i hready
      obtain rfl := Option.some.inj hnext
      refine ⟨⟨?_, ?_⟩, ?_⟩
      · rw [List.length_append, List.length_singleton]
        exact h.done.next
      · intro i group hgroup
        rw [List.getElem?_append] at hgroup
        split at hgroup
        · exact h.groups i group hgroup
        · rename_i hpast
          obtain ⟨hi, rfl⟩ : i - s.groups.length = 0 ∧ dag.getReadySteps s.completed = group := by
            simpa [List.getElem?_singleton] using hgroup
          obtain rfl : i = s.groups.length := by omega
          exact ⟨hready, (List.Nodup.of_map _ dag.nodup).filter _,
            fun step => h.done.mem_getReadySteps⟩
      · obtain ⟨step, hstep⟩ := List.exists_mem_of_ne_nil _ hready
        have hnew : step.name ∉ s.completed := by
          have hmem := (List.mem_filter.mp hstep).2
          simp only [decide_eq_true_eq] at hmem
          exact hmem.1
        have hgrows : s.completed ⊂ s.completed ∪
            ((dag.getReadySteps s.completed).map WorkflowStep.name).toFinset :=
          Finset.ssubset_iff_subset_ne.mpr ⟨Finset.subset_union_left, fun heq => hnew (by
            rw [heq]
            exact Finset.mem_union_right _ (List.mem_toFinset.mpr (List.mem_map_of_mem hstep)))⟩
        have hcard := Finset.card_lt_card hgrows
        dsimp only
        omega
  · simp at hnext

theorem Levelled.finish (h : Levelled dag s) (hnext : dag.nextGroup s = none) :
    AllShallow dag s.groups.length := by
  unfold DAG.nextGroup at hnext
  split at hnext
  · split at hnext
    · rename_i hready
      exact h.done.all_of_none_ready hready
    · simp at hnext
  · rename_i hcard
    exact h.done.all_of_card (not_lt.mp hcard)

theorem Levelled.flatten_nodup (h : Levelled dag s) : s.groups.flatten.Nodup := by
  refine List.nodup_flatten.mpr ⟨fun group hgroup => ?_, ?_⟩
  · obtain ⟨i, hi⟩ := List.mem_iff_getElem?.mp hgroup
    exact (h.groups i group hi).2.1
  · refine List.pairwise_iff_getElem.mpr fun i j hi hj hij step hstep hstep' => hij.ne ?_
    have hlow := (h.groups i _ (List.getElem?_eq_getElem hi)).2.2 step
    have hhigh := (h.groups j _ (List.getElem?_eq_getElem hj)).2.2 step
    exact (hlow.mp hstep).2.unique (hhigh.mp hstep').2

theorem Levelled.flatten_perm (h : Levelled dag s) (hshallow : AllShallow dag s.groups.length) :
    s.groups.flatten.Perm dag.steps := by
  refine (List.perm_ext_iff_of_nodup h.flatten_nodup (.of_map _ dag.nodup)).mpr fun step => ?_
  rw [List.mem_flatten]
  constructor
  · rintro ⟨group, hgroup, hstep⟩
    obtain ⟨i, hi⟩ := List.mem_iff_getElem?.mp hgroup
    exact (((h.groups i group hi).2.2 step).mp hstep).1
  · intro hstep
    obtain ⟨i, hi, hheight⟩ := (hshallow _ (List.mem_map_of_mem hstep)).exists_height
    have hgroup := List.getElem?_eq_getElem hi
    exact ⟨_, List.mem_of_getElem? hgroup, ((h.groups i _ hgroup).2.2 step).mpr ⟨hstep, hheight⟩⟩

/-- The loop ends, and the groups are the levels of the steps. -/
theorem parallel_groups_are_levels (dag : DAG) :
    ∃ groups, (∃ n, ∀ fuel, n ≤ fuel → dag.getParallelGroups fuel = some groups) ∧
      (∀ group ∈ groups, group ≠ []) ∧ groups.flatten.Perm dag.steps ∧
      ∀ k step, step ∈ groups.getD k [] ↔
        step ∈ dag.steps ∧ Height (DependsOn dag.steps) step.name k := by
  obtain ⟨s, hs, hdone, n, hloop⟩ := loop_terminates
    (fun s : DAG.Grouping => dag.steps.length - s.completed.card)
    (fun s s' h hnext => Levelled.round h hnext) (levelled_start dag)
  have hshallow := hs.finish hdone
  have hlevels : ∀ k step, step ∈ s.groups.getD k [] ↔
      step ∈ dag.steps ∧ Height (DependsOn dag.steps) step.name k := by
    intro k step
    rw [List.getD_eq_getElem?_getD]
    cases hgroup : s.groups[k]? with
    | some group => exact (hs.groups k group hgroup).2.2 step
    | none =>
      refine ⟨fun h => absurd h List.not_mem_nil, fun ⟨hstep, hheight⟩ => ?_⟩
      have hlt := hheight.lt_of_shallow (hshallow _ (List.mem_map_of_mem hstep))
      exact absurd hlt (not_lt.mpr (List.getElem?_eq_none_iff.mp hgroup))
  refine ⟨s.groups, ⟨n, fun fuel hfuel => ?_⟩, ?_, ?_, hlevels⟩
  · rw [DAG.getParallelGroups, hloop fuel hfuel]
    rfl
  · intro group hgroup
    obtain ⟨i, hi⟩ := List.mem_iff_getElem?.mp hgroup
    exact (hs.groups i group hi).1
  · exact hs.flatten_perm hshallow

def loadThenReport : DAG where
  steps := [⟨"report", ["load"]⟩, ⟨"load", []⟩]
  nodup := by decide
  closed := by decide
  acyclic name h := by
    have hedge : ∀ a b, DependsOn [⟨"report", ["load"]⟩, ⟨"load", []⟩] a b →
        a = "report" ∧ b = "load" := by simp [DependsOn, eq_comm]
    obtain ⟨_, hfirst, -⟩ := Relation.TransGen.head'_iff.mp h
    obtain ⟨_, -, hlast⟩ := Relation.TransGen.tail'_iff.mp h
    exact absurd ((hedge _ _ hfirst).1.symm.trans (hedge _ _ hlast).2) (by decide)

example : loadThenReport.getParallelGroups 3 =
    some [[⟨"load", []⟩], [⟨"report", ["load"]⟩]] := by decide

end Orditect.Workflow.Proofs
