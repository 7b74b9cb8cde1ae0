import Mathlib.Data.List.Chain
import Orditect.Snapshot.Proofs.Latest
/-!
# The chain of ancestors

The loop does not go up to a task it has been at, but it counts the start as one of these only
when the start itself is asked for.
-/

namespace Orditect.Snapshot.Proofs

open Support.Instant Support.JsonText Support.LuaJson

variable {τ ν : Type}

/-- What is asked of the chain of a task; `found` is whether the task has a live snapshot. -/
structure WellFormed (taskId : String) (includeSelf found : Bool)
    (chain : List (TaskSnapshot τ ν)) : Prop where
  distinct : (chain.map TaskSnapshot.taskId).Nodup
  self : taskId ∈ chain.map TaskSnapshot.taskId ↔ includeSelf = true ∧ found = true
  linked : chain.IsChain fun parent child => child.parentTaskId = some parent.taskId

def LeadsTo (byId : String → Option (TaskSnapshot τ ν)) (taskId : String) :
    Nat → TaskSnapshot τ ν → Prop
  | 0, _ => False
  | n + 1, s => ∃ parent, s.parentTaskId.bind byId = some parent ∧
      (parent.taskId = taskId ∨ LeadsTo byId taskId n parent)

section

variable {byId : String → Option (TaskSnapshot τ ν)} {taskId : String} {s : TaskSnapshot τ ν}
  {visited : List String}

theorem climb_induction
    {P : Nat → TaskSnapshot τ ν → List String → List (TaskSnapshot τ ν) → Prop}
    (done : ∀ levels s visited, P levels s visited [])
    (up : ∀ levels s visited id parent chain, s.parentTaskId = some id → id ∉ visited →
      byId id = some parent → P levels parent (id :: visited) chain →
        P (levels + 1) s visited (parent :: chain))
    (levels : Nat) (s : TaskSnapshot τ ν) (visited : List String) :
    P levels s visited (climb byId levels s visited) := by
  induction levels generalizing s visited with
  | zero => exact done 0 s visited
  | succ levels ih =>
    rw [climb]
    split
    · exact done ..
    next id hid =>
      split_ifs with hvisited
      · exact done ..
      · split
        · exact done ..
        next parent hparent => exact up levels s visited id parent _ hid hvisited hparent (ih ..)

theorem LeadsTo.succ {n : Nat} (h : LeadsTo byId taskId n s) : LeadsTo byId taskId (n + 1) s := by
  induction n generalizing s with
  | zero => exact h.elim
  | succ n ih =>
    obtain ⟨parent, hparent, hid⟩ := h
    exact ⟨parent, hparent, hid.imp_right ih⟩

theorem leadsTo_of_mem_climb (levels : Nat) (s : TaskSnapshot τ ν) (visited : List String) :
    taskId ∈ (climb byId levels s visited).map TaskSnapshot.taskId →
      LeadsTo byId taskId levels s := by
  refine climb_induction (P := fun levels s _ chain => taskId ∈ chain.map TaskSnapshot.taskId →
      LeadsTo byId taskId levels s)
    (by simp) (fun levels s visited id parent chain hid _ hparent ih h => ?_) levels s visited
  refine ⟨parent, by rw [hid]; exact hparent, ?_⟩
  exact (List.mem_cons.mp h).imp Eq.symm ih

theorem mem_climb {r : TaskSnapshot τ ν} (levels : Nat) (s : TaskSnapshot τ ν)
    (visited : List String) : r ∈ climb byId levels s visited → ∃ id, byId id = some r := by
  refine climb_induction (P := fun _ _ _ chain => r ∈ chain → ∃ id, byId id = some r)
    (by simp) (fun levels s visited id parent chain _ _ hparent ih h => ?_) levels s visited
  rcases List.mem_cons.mp h with rfl | h
  · exact ⟨id, hparent⟩
  · exact ih h

theorem mem_ancestors {includeSelf : Bool} (h : s ∈ ancestors byId taskId includeSelf) :
    ∃ id, byId id = some s := by
  rw [ancestors] at h
  split at h
  next => simp at h
  next current hcurrent =>
    split_ifs at h
    · rcases List.mem_cons.mp (List.mem_reverse.mp h) with rfl | h
      · exact ⟨taskId, hcurrent⟩
      · exact mem_climb _ _ _ h
    · exact mem_climb _ _ _ (List.mem_reverse.mp h)

variable (hid : ∀ id s, byId id = some s → s.taskId = id)

include hid

theorem climb_linked (levels : Nat) (s : TaskSnapshot τ ν) (visited : List String) :
    (s :: climb byId levels s visited).IsChain fun child parent =>
      child.parentTaskId = some parent.taskId := by
  refine climb_induction (P := fun _ s _ chain => (s :: chain).IsChain _)
    (fun _ s _ => .singleton s) (fun levels s visited id parent chain hs _ hparent ih => ?_) _ _ _
  exact .cons_cons (by rw [hs, hid id parent hparent]) ih

theorem climb_distinct (levels : Nat) (s : TaskSnapshot τ ν) (visited : List String) :
    ((climb byId levels s visited).map TaskSnapshot.taskId).Nodup ∧
      ∀ id ∈ (climb byId levels s visited).map TaskSnapshot.taskId, id ∉ visited := by
  refine climb_induction (P := fun _ _ visited chain => (chain.map TaskSnapshot.taskId).Nodup ∧
      ∀ id ∈ chain.map TaskSnapshot.taskId, id ∉ visited)
    (by simp) (fun levels s visited id parent chain _ hvisited hparent ih => ?_) _ _ _
  rw [List.map_cons, hid id parent hparent]
  refine ⟨List.nodup_cons.mpr ⟨fun hmem => ih.2 id hmem (List.mem_cons_self ..), ih.1⟩, ?_⟩
  intro other hmem hold
  rcases List.mem_cons.mp hmem with rfl | hmem
  · exact hvisited hold
  · exact ih.2 other hmem (List.mem_cons_of_mem _ hold)

/-- The shortest way up to the task is not blocked: what was visited on it has a longer one. -/
theorem mem_climb_of_leadsTo {n levels : Nat} (hle : n + 1 ≤ levels)
    (h : LeadsTo byId taskId (n + 1) s) (hleast : ¬LeadsTo byId taskId n s)
    (hvisited : ∀ id ∈ visited, id ≠ taskId ∧ ∀ r, byId id = some r → ¬LeadsTo byId taskId n r) :
    taskId ∈ (climb byId levels s visited).map TaskSnapshot.taskId := by
  induction levels generalizing s visited n with
  | zero => omega
  | succ levels ih =>
    obtain ⟨parent, hparent, hto⟩ := h
    obtain ⟨parentId, hparentId, hfound⟩ := Option.bind_eq_some_iff.mp hparent
    have hfresh : parentId ∉ visited := by
      intro hmem
      obtain ⟨hne, hlonger⟩ := hvisited parentId hmem
      rcases hto with heq | hto
      · exact hne ((hid parentId parent hfound).symm.trans heq)
      · exact hlonger parent hfound hto
    simp only [climb, hparentId, if_neg hfresh, hfound, List.map_cons, List.mem_cons]
    rcases hto with heq | hto
    · exact Or.inl heq.symm
    · cases n with
      | zero => exact hto.elim
      | succ n =>
        have hparentLeast : ¬LeadsTo byId taskId n parent := fun hless =>
          hleast ⟨parent, hparent, Or.inr hless⟩
        refine Or.inr (ih (by omega) hto hparentLeast fun id hmem => ?_)
        rcases List.mem_cons.mp hmem with rfl | hmem
        · refine ⟨fun heq => hleast ⟨parent, hparent, Or.inl ?_⟩, fun r hr => ?_⟩
          · exact (hid id parent hfound).trans heq
          · rwa [← Option.some.inj (hfound.symm.trans hr)]
        · exact (hvisited id hmem).imp_right fun hlonger r hr hless => hlonger r hr hless.succ

theorem mem_climb_iff (levels : Nat) (s : TaskSnapshot τ ν) :
    taskId ∈ (climb byId levels s []).map TaskSnapshot.taskId ↔
      LeadsTo byId taskId levels s := by
  classical
  refine ⟨leadsTo_of_mem_climb levels s [], fun h => ?_⟩
  have hex : ∃ n, LeadsTo byId taskId n s := ⟨levels, h⟩
  have hspec := Nat.find_spec hex
  have hpos : Nat.find hex ≠ 0 := fun hzero => by simp [hzero, LeadsTo] at hspec
  obtain ⟨n, hn⟩ := Nat.exists_eq_succ_of_ne_zero hpos
  rw [hn] at hspec
  have hle : n + 1 ≤ levels := hn.symm.le.trans (Nat.find_min' hex h)
  exact mem_climb_of_leadsTo hid hle hspec (Nat.find_min hex (by omega)) (by simp)

theorem wellFormed_ancestors_iff (taskId : String) (includeSelf : Bool) :
    WellFormed taskId includeSelf (byId taskId).isSome (ancestors byId taskId includeSelf) ↔
      (includeSelf = true ∨ ∀ s, byId taskId = some s →
        ¬LeadsTo byId taskId maxTraversalDepth.toNat s) := by
  rw [ancestors]
  split
  next hnone => exact ⟨by simp [hnone], fun _ => ⟨by simp, by simp [hnone], .nil⟩⟩
  next s hs =>
    have hlinked := climb_linked hid maxTraversalDepth.toNat s
    have hdistinct := climb_distinct hid maxTraversalDepth.toNat s
    cases includeSelf with
    | true =>
      refine ⟨fun _ => Or.inl rfl, fun _ => ⟨?_, ?_, ?_⟩⟩
      · rw [if_pos rfl, List.map_reverse, List.nodup_reverse, List.map_cons, hid _ _ hs]
        exact List.nodup_cons.mpr ⟨fun hmem => (hdistinct _).2 _ hmem (by simp), (hdistinct _).1⟩
      · simp [hs, hid _ _ hs]
      · rw [if_pos rfl, List.isChain_reverse]
        exact hlinked _
    | false =>
      have hself : taskId ∈ (climb byId maxTraversalDepth.toNat s []).reverse.map
          TaskSnapshot.taskId ↔ LeadsTo byId taskId maxTraversalDepth.toNat s := by
        rw [List.map_reverse, List.mem_reverse, mem_climb_iff hid]
      rw [if_neg (by decide)]
      constructor
      · intro h
        refine Or.inr fun r hr hleads => ?_
        obtain rfl : s = r := Option.some.inj (hs.symm.trans hr)
        simpa using h.self.mp (hself.mpr hleads)
      · intro h
        refine ⟨?_, ?_, ?_⟩
        · rw [List.map_reverse, List.nodup_reverse]
          exact (hdistinct []).1
        · rw [hself]
          simpa using h.resolve_left (by decide) s hs
        · rw [List.isChain_reverse]
          exact (hlinked []).tail

end

theorem byId_spec [LinearOrder τ] {alive : List (TaskSnapshot τ ν)} {id : String}
    {s : TaskSnapshot τ ν} (h : byId alive id = some s) : s ∈ alive ∧ s.taskId = id := by
  obtain ⟨hmem, hid⟩ := List.mem_filter.mp (newest_spec h).1
  exact ⟨hmem, by simpa using hid⟩

def Returns [LinearOrder τ] (alive : List (TaskSnapshot τ ν)) (taskId : String) : Prop :=
  ∃ s, byId alive taskId = some s ∧ LeadsTo (byId alive) taskId maxTraversalDepth.toNat s

theorem wellFormed_iff_not_returns [LinearOrder τ] (alive : List (TaskSnapshot τ ν))
    (taskId : String) (includeSelf : Bool) :
    WellFormed taskId includeSelf (byId alive taskId).isSome
        (ancestors (byId alive) taskId includeSelf) ↔
      includeSelf = true ∨ ¬Returns alive taskId := by
  rw [wellFormed_ancestors_iff fun _ _ h => (byId_spec h).2, Returns]
  push Not
  rfl

/-! ## The local adapter -/

theorem wellFormed_map {σ : Type} (f : τ → σ) (taskId : String) (includeSelf found : Bool)
    (chain : List (TaskSnapshot τ ν)) :
    WellFormed taskId includeSelf found (chain.map (TaskSnapshot.map f)) ↔
      WellFormed taskId includeSelf found chain := by
  have hids : (chain.map (TaskSnapshot.map f)).map TaskSnapshot.taskId =
      chain.map TaskSnapshot.taskId := by
    rw [List.map_map]
    rfl
  constructor
  · rintro ⟨hdistinct, hself, hlinked⟩
    rw [hids] at hdistinct hself
    exact ⟨hdistinct, hself, (List.isChain_map _).mp hlinked⟩
  · rintro ⟨hdistinct, hself, hlinked⟩
    rw [← hids] at hdistinct hself
    exact ⟨hdistinct, hself, (List.isChain_map _).mpr hlinked⟩

variable [NumberText ν] [LuaNumber ν]

theorem live_fileOf (log : List (Call ν)) (now : DateTime) :
    Local.live (ν := ν) (fileOf log) now =
      ((records (log.map callRow)).filter fun s => s.alive now).map
        (TaskSnapshot.map DateTime.iso) := by
  rw [Local.live, rows_fileOf, records_map, List.filter_map]
  congr 2
  funext s
  exact alive_map_iso now s

theorem getAncestors_fileOf (log : List (Call ν)) (now : DateTime) (taskId : String)
    (includeSelf : Bool) :
    ∃ chain, Local.getAncestors (fileOf log) now taskId includeSelf = some chain ∧
      ancestors (byId (Local.live (ν := ν) (fileOf log) now)) taskId includeSelf =
        chain.map (TaskSnapshot.map DateTime.iso) := by
  have hrange : ancestors (byId (Local.live (ν := ν) (fileOf log) now)) taskId
      includeSelf ∈ Set.range (List.map (TaskSnapshot.map DateTime.iso)) := by
    rw [Set.range_list_map]
    intro s hs
    obtain ⟨id, hid⟩ := mem_ancestors hs
    have hmem := (byId_spec hid).1
    rw [live_fileOf] at hmem
    obtain ⟨r, -, hr⟩ := List.mem_map.mp hmem
    exact ⟨r, hr⟩
  obtain ⟨chain, hchain⟩ := hrange
  refine ⟨chain, ?_, hchain.symm⟩
  rw [Local.getAncestors, ← hchain]
  exact mapM_validate chain

/-- The chain of a task is well formed in both adapters exactly if the task itself is asked for
or the ways up from it do not lead back to it. -/
theorem ancestors_wellFormed_iff [DecidableEq ν] (m : Memory DateTime ν) (calls : List (Call ν))
    (now : DateTime) (taskId : String) (includeSelf : Bool) :
    let live := m.snaps.filter fun s => s.alive now
    let stored := Local.live (ν := ν) (after Local.call [] calls) now
    (WellFormed taskId includeSelf (byId live taskId).isSome
        (m.getAncestors now taskId includeSelf) ↔ includeSelf = true ∨ ¬Returns live taskId) ∧
      ∃ chain : List (TaskSnapshot DateTime ν),
        Local.getAncestors (after Local.call [] calls) now taskId includeSelf = some chain ∧
        (WellFormed taskId includeSelf (byId stored taskId).isSome chain ↔
          includeSelf = true ∨ ¬Returns stored taskId) := by
  refine ⟨wellFormed_iff_not_returns _ taskId includeSelf, ?_⟩
  simp only [after_fileOf]
  obtain ⟨chain, hreturned, hchain⟩ :=
    getAncestors_fileOf (after logCall [] calls) now taskId includeSelf
  refine ⟨chain, hreturned, ?_⟩
  rw [← wellFormed_map DateTime.iso, ← hchain]
  exact wellFormed_iff_not_returns _ taskId includeSelf

def looped : Memory DateTime Int :=
  ⟨[{ started.snapshot with taskId := "a", parentTaskId := some "b" },
    { started.snapshot with taskId := "b", parentTaskId := some "a" }], []⟩

theorem ancestors_with_start :
    (looped.getAncestors started.ts "a" false).map (·.taskId) = ["a", "b"] := by
  decide +kernel

end Orditect.Snapshot.Proofs
