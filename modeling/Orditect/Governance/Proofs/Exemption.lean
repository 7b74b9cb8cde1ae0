import Orditect.Governance.Solo
/-!
# Registered and live exemptions

Both walks collect the resources of the first `maxLineageDepth` tasks above the child:
the governor starts at the primary parent and counts it, the executor starts at the child
and does not.  The cap of the governor only bites when there is more to collect.
-/

namespace Orditect.Governance.Proofs

open Support.Loop

variable {s : Store} {cfg : Config}

def above (s : Store) : Nat → Option String → List String
  | 0, _ => []
  | _ + 1, none => []
  | n + 1, some current => current :: above s n (s.getTask current).parentTaskId

def recorded (s : Store) (task : String) : Option String :=
  (s.getTask task).resource.filter (· ≠ "")

def ledger (s : Store) (tasks : List String) : Finset String :=
  (tasks.filterMap (recorded s)).toFinset

@[simp] theorem above_none (n : Nat) : above s n none = [] := by
  cases n <;> rfl

variable {task resource : String} {found : List String}

theorem getTask_of_none (h : s.records task = none) : s.getTask task = {} := by
  simp [Store.getTask, h]

theorem getTask_of_some {record : Record} (h : s.records task = some record) :
    s.getTask task = record := by
  simp [Store.getTask, h]

theorem recorded_eq_some :
    recorded s task = some resource ↔
      (s.getTask task).resource = some resource ∧ resource ≠ "" := by
  simp [recorded]

theorem ledger_cons_none (h : recorded s task = none) (tasks : List String) :
    ledger s (task :: tasks) = ledger s tasks := by
  simp [ledger, h]

theorem ledger_cons_some (h : recorded s task = some resource) (tasks : List String) :
    ledger s (task :: tasks) = insert resource (ledger s tasks) := by
  simp [ledger, h]

/-! ## The executor's walk -/

theorem addResource_union (task : String) (resources : Finset String) (tasks : List String) :
    addResource (s.getTask task) resources ∪ ledger s tasks =
      resources ∪ ledger s (task :: tasks) := by
  unfold addResource
  split
  next resource hresource =>
    by_cases hempty : resource = ""
    · rw [if_pos hempty, ledger_cons_none (by simp [recorded, hresource, hempty])]
    · rw [if_neg hempty, ledger_cons_some (recorded_eq_some.mpr ⟨hresource, hempty⟩),
        Finset.insert_union, Finset.union_insert]
  next hresource => rw [ledger_cons_none (by simp [recorded, hresource])]

theorem findFrom_eq {n : Nat} {record : Record} {visited resources : Finset String}
    (hfresh : ∀ task ∈ above s n record.parentTaskId, task ∉ visited)
    (hnodup : (above s n record.parentTaskId).Nodup) :
    findFrom s n record visited resources =
      resources ∪ ledger s (above s n record.parentTaskId) := by
  induction n generalizing record visited resources with
  | zero => simp [findFrom, above, ledger]
  | succ n ih =>
    cases hparent : record.parentTaskId with
    | none => simp [findFrom, hparent, ledger]
    | some parent =>
      rw [hparent] at hfresh hnodup
      obtain ⟨hnot, hrest⟩ := List.nodup_cons.mp hnodup
      have hnew : parent ∉ visited := hfresh parent List.mem_cons_self
      have hahead : ∀ task ∈ above s n (s.getTask parent).parentTaskId,
          task ∉ insert parent visited := by
        intro task htask hin
        rcases Finset.mem_insert.mp hin with rfl | hin
        · exact hnot htask
        · exact hfresh task (List.mem_cons_of_mem _ htask) hin
      rw [findFrom, hparent]
      simp only [hnew, if_false]
      rw [ih hahead hrest, addResource_union]
      rfl

/-! ## The governor's walk -/

theorem eq_of_full {all : Finset String} (hnodup : found.Nodup) (hsub : found.toFinset ⊆ all)
    (hcap : all.card ≤ found.length) : found.toFinset = all := by
  refine Finset.eq_of_subset_of_card_le hsub ?_
  rwa [List.toFinset_card_of_nodup hnodup]

theorem union_ledger_known {tasks : List String}
    (hresource : (s.getTask task).resource = some resource)
    (hknown : resource = "" ∨ resource ∈ found) :
    found.toFinset ∪ ledger s (task :: tasks) = found.toFinset ∪ ledger s tasks := by
  by_cases hempty : resource = ""
  · rw [ledger_cons_none (by simp [recorded, hresource, hempty])]
  · have hin : resource ∈ found := hknown.resolve_left hempty
    rw [ledger_cons_some (recorded_eq_some.mpr ⟨hresource, hempty⟩), Finset.union_insert,
      Finset.insert_eq_of_mem (Finset.mem_union_left _ (List.mem_toFinset.mpr hin))]

theorem union_ledger_new {tasks : List String}
    (hresource : (s.getTask task).resource = some resource) (hempty : resource ≠ "") :
    found.toFinset ∪ ledger s (task :: tasks) =
      (found ++ [resource]).toFinset ∪ ledger s tasks := by
  rw [ledger_cons_some (recorded_eq_some.mpr ⟨hresource, hempty⟩)]
  simp [List.toFinset_append]

theorem collectFrom_eq {n : Nat} {current : Option String} {visited resources : List String}
    (hfresh : ∀ task ∈ above s n current, task ∉ visited) (hnodup : (above s n current).Nodup)
    (hresources : resources.Nodup)
    (hcap : (resources.toFinset ∪ ledger s (above s n current)).card ≤ maxExemptResources) :
    (collectFrom s n current visited resources).toFinset =
      resources.toFinset ∪ ledger s (above s n current) := by
  induction n generalizing current visited resources with
  | zero => simp [collectFrom, above, ledger]
  | succ n ih =>
    cases current with
    | none => simp [collectFrom, ledger]
    | some current =>
      obtain ⟨hnot, hrest⟩ := List.nodup_cons.mp hnodup
      have hnew : current ∉ visited := hfresh current List.mem_cons_self
      have hahead : ∀ task ∈ above s n (s.getTask current).parentTaskId,
          task ∉ current :: visited := by
        intro task htask hin
        rcases List.mem_cons.mp hin with rfl | hin
        · exact hnot htask
        · exact hfresh task (List.mem_cons_of_mem _ htask) hin
      cases hrecord : s.records current with
      | none =>
        simp [collectFrom, hnew, hrecord, above, getTask_of_none hrecord, recorded, ledger]
      | some record =>
        have hget := getTask_of_some hrecord
        have habove : above s (n + 1) (some current) =
            current :: above s n record.parentTaskId := by rw [above, hget]
        rw [hget] at hahead hrest
        rw [habove] at hcap ⊢
        cases hresource : record.resource with
        | none =>
          have hnone : recorded s current = none := by simp [recorded, hget, hresource]
          rw [ledger_cons_none hnone] at hcap ⊢
          simp only [collectFrom, hnew, hrecord, hresource, if_false]
          exact ih hahead hrest hresources hcap
        | some resource =>
          by_cases hskip : resource = "" ∨ resource ∈ resources
          · rw [union_ledger_known (hget ▸ hresource) hskip] at hcap ⊢
            simp only [collectFrom, hnew, hrecord, hresource, hskip, if_false, if_true]
            exact ih hahead hrest hresources hcap
          · obtain ⟨hempty, hunknown⟩ := not_or.mp hskip
            rw [union_ledger_new (hget ▸ hresource) hempty] at hcap ⊢
            have hgrown : (resources ++ [resource]).Nodup :=
              List.nodup_append_comm.mp (List.nodup_cons.mpr ⟨hunknown, hresources⟩)
            simp only [collectFrom, hnew, hrecord, hresource, hskip, if_false]
            split
            next hfull =>
              exact eq_of_full hgrown Finset.subset_union_left (hcap.trans hfull)
            next => exact ih hahead hrest hgrown hcap

/-- For a child whose `parent_task_id` is the primary parent, on a chain without
repetition and with at most ten distinct resources in its first 32 ancestors, the snapshot
of the registration and the set the executor finds are the same. -/
theorem exemptions_agree (s : Store) (child primary : String)
    (hparent : (s.getTask child).parentTaskId = some primary)
    (hacyclic : ∀ n, (above s n (some child)).Nodup)
    (hcap : (ledger s (above s maxLineageDepth (some primary))).card ≤ maxExemptResources) :
    (collectChainResources s primary).toFinset = findAncestorResources s child := by
  have hchain := hacyclic (maxLineageDepth + 1)
  rw [above, hparent] at hchain
  obtain ⟨hnot, hnodup⟩ := List.nodup_cons.mp hchain
  rw [collectChainResources, collectFrom_eq (by simp) hnodup List.nodup_nil (by simpa using hcap),
    findAncestorResources, findFrom_eq, hparent]
  · simp
  · rw [hparent]
    intro task htask hin
    obtain rfl := Finset.mem_singleton.mp hin
    exact hnot htask
  · rwa [hparent]

def threeGenerations : Store where
  records := fun task =>
    if task = "c" then some { parentTaskId := some "p" }
    else if task = "p" then some { parentTaskId := some "g", resource := some "gpu" }
    else if task = "g" then some { resource := some "disk" }
    else none
  activeChildren := fun _ => ∅
  remainingDeps := ∅
  cancelVotes := fun _ => ∅

theorem above_threeGenerations (n : Nat) :
    above threeGenerations n (some "c") <+: ["c", "p", "g"] := by
  match n with
  | 0 => exact List.nil_prefix
  | 1 => exact ⟨["p", "g"], rfl⟩
  | 2 => exact ⟨["g"], rfl⟩
  | n + 3 =>
    have hend : above threeGenerations (n + 3) (some "c") = ["c", "p", "g"] := by
      simp [above, threeGenerations, Store.getTask]
    exact hend ▸ List.prefix_refl _

theorem exemptions_agree_threeGenerations :
    (ledger threeGenerations (above threeGenerations maxLineageDepth (some "p"))).card ≤
        maxExemptResources ∧
      (collectChainResources threeGenerations "p").toFinset =
        findAncestorResources threeGenerations "c" :=
  ⟨by decide, exemptions_agree threeGenerations "c" "p" rfl
    (fun n => (above_threeGenerations n).sublist.nodup (by decide)) (by decide)⟩

/-! ## The walk of a registration -/

theorem leads_collectChain (recs : List (String × Record)) (primary : String) (hops : Nat)
    (current : Option String) (visited resources : List String) (writes : Nat) :
    Leads (Solo.next cfg)
      ⟨.collectChain recs primary hops current visited resources, s, writes⟩
      ⟨startWrites cfg recs primary (collectFrom s hops current visited resources), s, writes⟩ := by
  induction hops generalizing current visited resources with
  | zero => exact .step rfl (.refl _)
  | succ hops ih =>
    refine .step rfl ?_
    change Leads (Solo.next cfg)
      ⟨followChain cfg s recs primary (hops + 1) current visited resources, s, writes⟩ _
    cases current with
    | none => exact .refl _
    | some node =>
      simp only [followChain, collectFrom]
      split
      · exact .refl _
      · cases s.records node with
        | none => exact .refl _
        | some record =>
          dsimp only
          cases record.resource with
          | none => exact ih _ _ _
          | some resource =>
            dsimp only
            split
            · exact ih _ _ _
            · split
              · exact .refl _
              · exact ih _ _ _

end Orditect.Governance.Proofs
