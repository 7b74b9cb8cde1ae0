import Mathlib.Data.Finset.Card
import Mathlib.Logic.Relation
import Orditect.Support.Loop
/-!
# The parallel groups of a workflow

`DAG.get_parallel_groups` takes out, round by round, all steps whose dependencies are done.
Of a step only its name and its dependencies matter here.
-/

namespace Orditect.Workflow

open Support.Loop

structure WorkflowStep where
  name : String
  dependencies : List String
  deriving DecidableEq

def DependsOn (steps : List WorkflowStep) (name dep : String) : Prop :=
  ∃ step ∈ steps, step.name = name ∧ dep ∈ step.dependencies

/-- `self.steps.values()` once `_validate` has returned: no name twice, every dependency a
step, and no circular dependency. -/
structure DAG where
  steps : List WorkflowStep
  nodup : (steps.map WorkflowStep.name).Nodup
  closed : ∀ step ∈ steps, ∀ dep ∈ step.dependencies, dep ∈ steps.map WorkflowStep.name
  acyclic : ∀ name, ¬Relation.TransGen (DependsOn steps) name name

namespace DAG

def getReadySteps (dag : DAG) (completed : Finset String) : List WorkflowStep :=
  dag.steps.filter fun step =>
    step.name ∉ completed ∧ ∀ dep ∈ step.dependencies, dep ∈ completed

structure Grouping where
  groups : List (List WorkflowStep)
  completed : Finset String

def nextGroup (dag : DAG) (s : Grouping) : Option Grouping :=
  if s.completed.card < dag.steps.length then
    match dag.getReadySteps s.completed with
    | [] => none
    | ready =>
      some ⟨s.groups ++ [ready], s.completed ∪ (ready.map WorkflowStep.name).toFinset⟩
  else none

/-- `none` when `fuel` rounds do not leave the loop. -/
def getParallelGroups (dag : DAG) (fuel : Nat) : Option (List (List WorkflowStep)) :=
  (loop dag.nextGroup fuel ⟨[], ∅⟩).map Grouping.groups

end DAG

end Orditect.Workflow
