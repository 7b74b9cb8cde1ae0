import Orditect.Support.Loop
import Orditect.Governance.Governor
/-!
# A call that nothing interleaves with

`register_dependency` run to its end on a store that nobody else touches, and the two
walks along the `parent_task_id` chain that decide which resources a child is exempt
from: `_collect_chain_resources` of the governor, at registration, and
`_find_ancestor_resources` of the executor, when the task runs.
-/

namespace Orditect.Governance

open Support.Loop

/-- A registration, the store it works on, and how many storage writes it has made. -/
structure Solo where
  registration : Registration
  store : Store
  writes : Nat

def Registration.isWrite : Registration → Bool
  | .addActive _ (_ :: _) | .castVotes _ (_ :: _) _ | .writeRecord _ _ | .setCounter _ _
  | .compensate _ _ _ _ | .recastVote _ _ _ => true
  | _ => false

def Solo.next (cfg : Config) (solo : Solo) : Option Solo :=
  (solo.registration.next cfg solo.store).map fun move =>
    { registration := move.next
      store := move.store
      writes := solo.writes + solo.registration.isWrite.toNat }

def Solo.start (cfg : Config) (req : Request) (s : Store) : Solo where
  registration := if cfg.parents = [] then .raised .emptyParents else .readChild req
  store := s
  writes := 0

def collectFrom (s : Store) : Nat → Option String → List String → List String → List String
  | 0, _, _, resources => resources
  | _ + 1, none, _, resources => resources
  | hops + 1, some current, visited, resources =>
    if current ∈ visited then resources
    else
      match s.records current with
      | none => resources
      | some record =>
        match record.resource with
        | some resource =>
          if resource = "" ∨ resource ∈ resources then
            collectFrom s hops record.parentTaskId (current :: visited) resources
          else if maxExemptResources ≤ (resources ++ [resource]).length then
            resources ++ [resource]
          else
            collectFrom s hops record.parentTaskId (current :: visited)
              (resources ++ [resource])
        | none => collectFrom s hops record.parentTaskId (current :: visited) resources

def collectChainResources (s : Store) (startId : String) : List String :=
  collectFrom s maxLineageDepth (some startId) [] []

def addResource (record : Record) (resources : Finset String) : Finset String :=
  match record.resource with
  | some resource => if resource = "" then resources else insert resource resources
  | none => resources

def findFrom (s : Store) : Nat → Record → Finset String → Finset String → Finset String
  | 0, _, _, resources => resources
  | rounds + 1, record, visited, resources =>
    match record.parentTaskId with
    | none => resources
    | some parent =>
      if parent ∈ visited then resources
      else
        let parentRecord := s.getTask parent
        findFrom s rounds parentRecord (insert parent visited)
          (addResource parentRecord resources)

def findAncestorResources (s : Store) (taskId : String) : Finset String :=
  findFrom s maxLineageDepth (s.getTask taskId) {taskId} ∅

end Orditect.Governance
