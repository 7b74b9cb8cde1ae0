import Mathlib.Data.Finset.Card
import Orditect.Snapshot.Memory
/-!
# The tasks of a snapshot tree

The tree lists a task once for each of its steps, and then with its newest snapshot.
-/

namespace Orditect.Snapshot.Proofs

variable {τ ν : Type} [LinearOrder τ]

/-! ## The newest snapshot of each node -/

theorem node_addLatest (latest : List (TaskSnapshot τ ν)) (s : TaskSnapshot τ ν) :
    (addLatest latest s).map TaskSnapshot.node =
      if s.node ∈ latest.map TaskSnapshot.node then latest.map TaskSnapshot.node
      else latest.map TaskSnapshot.node ++ [s.node] := by
  unfold addLatest
  split
  · rename_i l hfind
    have hnode : l.node = s.node := by simpa using List.find?_some hfind
    have hmem : s.node ∈ latest.map TaskSnapshot.node := by
      rw [← hnode]
      exact List.mem_map_of_mem (List.mem_of_find?_eq_some hfind)
    rw [if_pos hmem]
    split
    · rw [List.map_map]
      apply List.map_congr_left
      intro x _
      by_cases hx : x.node = s.node
      · simp [hx]
      · simp [hx]
    · rfl
  · rename_i hfind
    have hmem : s.node ∉ latest.map TaskSnapshot.node := by
      intro hmem
      obtain ⟨l, hl, hnode⟩ := List.mem_map.mp hmem
      exact List.find?_eq_none.mp hfind l hl (by simp [hnode])
    rw [if_neg hmem, List.map_append]
    rfl

/-- Of the snapshots of its node none is newer, and none that is as new comes later. -/
def IsLatest (snaps : List (TaskSnapshot τ ν)) (s : TaskSnapshot τ ν) : Prop :=
  ∃ before after, snaps = before ++ s :: after ∧
    (∀ b ∈ before, b.node = s.node → b.createdAt ≤ s.createdAt) ∧
    ∀ a ∈ after, a.node = s.node → a.createdAt < s.createdAt

variable {snaps latest : List (TaskSnapshot τ ν)} {s t : TaskSnapshot τ ν}

theorem IsLatest.le (h : IsLatest snaps s) (ht : t ∈ snaps) (hnode : t.node = s.node) :
    t.createdAt ≤ s.createdAt := by
  obtain ⟨before, after, rfl, hbefore, hafter⟩ := h
  rcases List.mem_append.mp ht with ht | ht
  · exact hbefore t ht hnode
  · rcases List.mem_cons.mp ht with rfl | ht
    · exact le_rfl
    · exact (hafter t ht hnode).le

theorem IsLatest.concat (h : IsLatest snaps s) (hlt : t.node = s.node → t.createdAt < s.createdAt) :
    IsLatest (snaps ++ [t]) s := by
  obtain ⟨before, after, rfl, hbefore, hafter⟩ := h
  refine ⟨before, after ++ [t], by simp, hbefore, fun a ha => ?_⟩
  rcases List.mem_append.mp ha with ha | ha
  · exact hafter a ha
  · exact List.mem_singleton.mp ha ▸ hlt

theorem isLatest_concat_self (h : ∀ t ∈ snaps, t.node = s.node → t.createdAt ≤ s.createdAt) :
    IsLatest (snaps ++ [s]) s :=
  ⟨snaps, [], rfl, h, by simp⟩

/-- The nodes of the result: each one of the input, once, and with its latest snapshot. -/
structure Nodes (latest snaps : List (TaskSnapshot τ ν)) : Prop where
  nodup : (latest.map TaskSnapshot.node).Nodup
  mem : ∀ n, n ∈ latest.map TaskSnapshot.node ↔ n ∈ snaps.map TaskSnapshot.node
  isLatest : ∀ s ∈ latest, IsLatest snaps s

theorem isLatest_addLatest (h : Nodes latest snaps) (s : TaskSnapshot τ ν) :
    ∀ x ∈ addLatest latest s, IsLatest (snaps ++ [s]) x := by
  intro x hx
  unfold addLatest at hx
  split at hx
  · rename_i l hfind
    have hmem : l ∈ latest := List.mem_of_find?_eq_some hfind
    have hnode : l.node = s.node := by simpa using List.find?_some hfind
    split at hx
    · rename_i hle
      obtain ⟨y, hy, rfl⟩ := List.mem_map.mp hx
      by_cases heq : y.node = s.node
      · rw [if_pos (by simpa using heq)]
        refine isLatest_concat_self fun t ht htnode => ?_
        exact ((h.isLatest l hmem).le ht (htnode.trans hnode.symm)).trans hle
      · rw [if_neg (by simpa using heq)]
        exact (h.isLatest y hy).concat fun hs => absurd hs.symm heq
    · rename_i hlt
      refine (h.isLatest x hx).concat fun hs => ?_
      rw [← List.inj_on_of_nodup_map h.nodup hmem hx (hnode.trans hs)]
      exact not_le.mp hlt
  · rename_i hfind
    have hnew : ∀ l ∈ latest, l.node ≠ s.node := fun l hl => by
      simpa using List.find?_eq_none.mp hfind l hl
    rcases List.mem_append.mp hx with hx | hx
    · exact (h.isLatest x hx).concat fun hs => absurd hs.symm (hnew x hx)
    · rw [List.mem_singleton.mp hx]
      refine isLatest_concat_self fun t ht htnode => ?_
      obtain ⟨l, hl, hlnode⟩ := List.mem_map.mp ((h.mem _).mpr (List.mem_map_of_mem ht))
      exact absurd (hlnode.trans htnode) (hnew l hl)

theorem nodes_addLatest (h : Nodes latest snaps) (s : TaskSnapshot τ ν) :
    Nodes (addLatest latest s) (snaps ++ [s]) := by
  refine ⟨?_, ?_, isLatest_addLatest h s⟩
  · rw [node_addLatest]
    split
    · exact h.nodup
    · rename_i hnew
      exact h.nodup.append (List.nodup_singleton _) (List.disjoint_singleton.mpr hnew)
  · intro n
    rw [node_addLatest, List.map_append, List.mem_append, ← h.mem]
    split
    · rename_i hold
      constructor
      · exact Or.inl
      · rintro (hn | hn)
        · exact hn
        · rw [show n = s.node by simpa using hn]
          exact hold
    · rw [List.mem_append]
      simp

theorem nodes_latestPerNode (snaps : List (TaskSnapshot τ ν)) :
    Nodes (latestPerNode snaps) snaps := by
  unfold latestPerNode
  have hfold : ∀ (rest latest done : List (TaskSnapshot τ ν)), Nodes latest done →
      Nodes (rest.foldl addLatest latest) (done ++ rest) := by
    intro rest
    induction rest with
    | nil =>
      intro latest done h
      rw [List.append_nil]
      exact h
    | cons s rest ih =>
      intro latest done h
      have hrest := ih (addLatest latest s) (done ++ [s]) (nodes_addLatest h s)
      rwa [List.append_assoc] at hrest
  exact hfold snaps [] [] ⟨List.nodup_nil, fun n => Iff.rfl, by simp⟩

/-- `latest_only` keeps the latest snapshot of each node. -/
theorem nodes_getTree (m : Memory τ ν) (now : τ) (root : String) (maxDepth : Option Int) :
    Nodes (m.getTree now root maxDepth true) (m.getTree now root maxDepth false) :=
  nodes_latestPerNode _

/-! ## The traversal -/

def Collected (alive : List (TaskSnapshot τ ν)) (w : Traversal τ ν) : Prop :=
  ∀ s, s ∈ w.out ↔ s ∈ alive ∧ s.taskId ∈ w.visited

omit [LinearOrder τ] in
theorem collected_walk (alive : List (TaskSnapshot τ ν)) (levels : Nat) {taskId : String}
    {w : Traversal τ ν} (h : Collected alive w) : Collected alive (walk alive levels taskId w) := by
  induction levels generalizing taskId w with
  | zero => exact h
  | succ levels ih =>
    unfold walk
    split
    · exact h
    · apply List.foldlRecOn (motive := Collected alive)
      · intro s
        rw [List.mem_append, List.mem_filter, h s]
        simp only [beq_iff_eq, List.mem_cons]
        tauto
      · intro w hw child _
        exact ih hw

theorem mem_node_getTree (m : Memory τ ν) (now : τ) (root : String) :
    ∃ visited : List String, ∀ n, n ∈ (m.getTree now root none true).map TaskSnapshot.node ↔
      n.1 ∈ visited ∧ ∃ s ∈ m.snaps, s.alive now = true ∧ s.node = n := by
  generalize hw : walk (m.snaps.filter fun s => s.alive now) (maxTraversalDepth + 1).toNat root
    ⟨[], []⟩ = w
  have hcollected : Collected (m.snaps.filter fun s => s.alive now) w := by
    rw [← hw]
    exact collected_walk _ _ (fun s => by simp)
  have htree : m.getTree now root none true = latestPerNode w.out := by
    rw [← hw]
    rfl
  refine ⟨w.visited, fun n => ?_⟩
  rw [htree, (nodes_latestPerNode _).mem, List.mem_map]
  constructor
  · rintro ⟨s, hs, rfl⟩
    obtain ⟨halive, hvisited⟩ := (hcollected s).mp hs
    rw [List.mem_filter] at halive
    exact ⟨hvisited, s, halive.1, halive.2, rfl⟩
  · rintro ⟨hvisited, s, hs, halive, rfl⟩
    exact ⟨s, (hcollected s).mpr ⟨List.mem_filter.mpr ⟨hs, halive⟩, hvisited⟩, rfl⟩

def OneStep (m : Memory τ ν) (now : τ) (taskId : String) : Prop :=
  ∀ a ∈ m.snaps, ∀ b ∈ m.snaps, a.alive now = true → b.alive now = true →
    a.taskId = taskId → b.taskId = taskId → a.step = b.step

theorem length_le_one_iff {α : Type} [DecidableEq α] {l : List α} (h : l.Nodup) :
    l.length ≤ 1 ↔ ∀ a ∈ l, ∀ b ∈ l, a = b := by
  rw [← List.toFinset_card_of_nodup h, Finset.card_le_one]
  simp

theorem count_getTree_le_one_iff (m : Memory τ ν) (now : τ) {root taskId : String}
    (ht : taskId ∈ (m.getTree now root none true).map TaskSnapshot.taskId) :
    ((m.getTree now root none true).map TaskSnapshot.taskId).count taskId ≤ 1 ↔
      OneStep m now taskId := by
  obtain ⟨visited, hmem⟩ := mem_node_getTree m now root
  have hnodup : ((m.getTree now root none true).map TaskSnapshot.node).Nodup :=
    (nodes_latestPerNode _).nodup
  have hids : (m.getTree now root none true).map TaskSnapshot.taskId =
      ((m.getTree now root none true).map TaskSnapshot.node).map Prod.fst := by
    rw [List.map_map]
    rfl
  rw [hids] at ht ⊢
  generalize (m.getTree now root none true).map TaskSnapshot.node = nodes at *
  obtain ⟨n, hn, rfl⟩ := List.mem_map.mp ht
  have hvisited : n.1 ∈ visited := ((hmem n).mp hn).1
  rw [List.count_eq_countP, List.countP_map, List.countP_eq_length_filter,
    length_le_one_iff (hnodup.filter _)]
  simp only [List.mem_filter, Function.comp_apply, beq_iff_eq]
  constructor
  · intro hone a ha b hb haalive hbalive hat hbt
    have hnode : ∀ s ∈ m.snaps, s.alive now = true → s.taskId = n.1 → s.node ∈ nodes := by
      intro s hs halive hst
      refine (hmem s.node).mpr ⟨?_, s, hs, halive, rfl⟩
      show s.taskId ∈ visited
      rwa [hst]
    have heq := hone a.node ⟨hnode a ha haalive hat, hat⟩ b.node ⟨hnode b hb hbalive hbt, hbt⟩
    exact congrArg Prod.snd heq
  · rintro hone p ⟨hp, hpt⟩ q ⟨hq, hqt⟩
    obtain ⟨-, a, ha, haalive, rfl⟩ := (hmem p).mp hp
    obtain ⟨-, b, hb, hbalive, rfl⟩ := (hmem q).mp hq
    exact Prod.ext (hpt.trans hqt.symm) (hone a ha b hb haalive hbalive hpt hqt)

end Orditect.Snapshot.Proofs
