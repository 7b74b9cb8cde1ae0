import Orditect.Executor.System
import Orditect.TaskStore.Proofs.Terminal
/-!
# What the coroutines of one task write

Every write of `execute`, of a cancellation and of a rerun goes through `update_task`, names
no execution id, and never puts the record back to `pending`; only a reopening or an
initialisation begins a new generation.
-/

namespace Orditect.Executor.Proofs

open Support.LuaJson
open TaskStore (Store field)

variable {ν : Type}

theorem recode_eq_str [LuaNumber ν] {v : Json ν} {a : String} (h : v.recode = .str a) :
    v = .str a := by
  cases v with
  | str b => simpa using h
  | arr elems => cases elems <;> simp [Json.recode] at h
  | _ => simp [Json.recode] at h

structure SameGeneration (cfg : Config) (s s' : Store ν) : Prop where
  id : ∀ g, field s' cfg.taskId "execution_id" = some (.str g) ↔
    field s cfg.taskId "execution_id" = some (.str g)
  pending : field s' cfg.taskId "status" = some (.str TaskStatus.pending.value) →
    field s cfg.taskId "status" = some (.str TaskStatus.pending.value)

theorem SameGeneration.refl (cfg : Config) (s : Store ν) : SameGeneration cfg s s :=
  ⟨fun _ => Iff.rfl, fun h => h⟩

structure OwnWrite (updates : List (String × Json ν)) : Prop where
  id : updates.lookup "execution_id" = none
  status : updates.lookup "status" ≠ some (.str TaskStatus.pending.value)

theorem begin_store {cfg : Config} {s s' : State ν} {here timed : Bool}
    (h : begin cfg here timed s = some s') : s'.store = s.store := by
  unfold begin at h
  split at h
  · obtain rfl := Option.some.inj h
    rfl
  · simp at h

section

variable [DecidableEq ν] [LuaNumber ν] {cfg : Config} {s s' : Store ν}
  {updates : List (String × Json ν)}

theorem updates_updateTask {reply : TaskStore.UpdateReply}
    (h : updateTask cfg updates s = (reply, s')) :
    TaskStore.Proofs.Updates cfg.storage (fun k => updates.lookup k) (-1) cfg.taskId s reply
      s' := by
  have hspec := TaskStore.Proofs.updates_taskUpdate cfg.storage (fun k => updates.lookup k) (-1)
    cfg.taskId s
  unfold updateTask at h
  rw [h] at hspec
  exact hspec

theorem status_of_ok {word : String}
    (h : updateTask cfg [("status", .str word)] s = (.ok, s')) :
    field s' cfg.taskId "status" = some (.str word) := by
  cases updates_updateTask h with
  | written reply s' current hcur hkeep hw =>
    rw [hw.field_self]
    simp [Fields.recode, Fields.merge]

theorem rewrites_updateTask (cfg : Config) (updates : List (String × Json ν)) (s : Store ν) :
    (updateTask cfg updates s).2 = s ∨
      ∃ current, TaskStore.getTask cfg.taskId s = some current ∧
        TaskStore.Proofs.Rewrites s (updateTask cfg updates s).2 cfg.taskId
          (Fields.merge (fun k => updates.lookup k) current).recode := by
  obtain ⟨⟨reply, s'⟩, hresult⟩ : ∃ result, updateTask cfg updates s = result := ⟨_, rfl⟩
  rw [hresult]
  cases updates_updateTask hresult with
  | written _ _ current hcur hkeep hw => exact Or.inr ⟨current, hcur, hw⟩
  | _ => exact Or.inl rfl

theorem store_updateTerminal {result : Except String Bool}
    (h : updateTerminal cfg updates s = (result, s')) :
    s' = (updateTask cfg updates s).2 := by
  unfold updateTerminal at h
  split at h <;> simp_all

theorem sameGeneration_updateTask (cfg : Config) (h : OwnWrite updates) (s : Store ν) :
    SameGeneration cfg s (updateTask cfg updates s).2 := by
  rcases rewrites_updateTask cfg updates s with hsame | ⟨current, hcur, hw⟩
  · rw [hsame]
    exact .refl cfg s
  · have hold : ∀ k, field s cfg.taskId k = current k := fun k => by simp [field, hcur]
    have hnew : ∀ k, field (updateTask cfg updates s).2 cfg.taskId k =
        ((updates.lookup k).or (current k)).map Json.recode := hw.field_self
    constructor
    · intro g
      rw [hnew, hold, h.id, Option.none_or]
      constructor
      · intro hg
        obtain ⟨v, hv, hrecode⟩ := Option.map_eq_some_iff.mp hg
        rw [hv, recode_eq_str hrecode]
      · intro hg
        simp [hg]
    · intro hp
      rw [hnew] at hp
      rw [hold]
      obtain ⟨v, hv, hrecode⟩ := Option.map_eq_some_iff.mp hp
      obtain rfl := recode_eq_str hrecode
      rcases Option.or_eq_some_iff.mp hv with hup | ⟨-, hcur⟩
      · exact absurd hup h.status
      · exact hcur

inductive Writes (cfg : Config) (s : Store ν) : Store ν → Prop
  | reads : Writes cfg s s
  | updates (updates : List (String × Json ν)) (hown : OwnWrite updates) :
      Writes cfg s (updateTask cfg updates s).2

theorem Writes.sameGeneration (h : Writes cfg s s') : SameGeneration cfg s s' := by
  cases h with
  | reads => exact .refl cfg s
  | updates updates hown => exact sameGeneration_updateTask cfg hown s

theorem records_updateTask_ne (cfg : Config) (updates : List (String × Json ν)) {x : String}
    (hx : x ≠ cfg.taskId) (s : Store ν) :
    (updateTask cfg updates s).2.records x = s.records x := by
  rcases rewrites_updateTask cfg updates s with hsame | ⟨current, hcur, hw⟩
  · rw [hsame]
  · exact hw.records_ne hx

theorem Writes.records_ne {x : String} (h : Writes cfg s s') (hx : x ≠ cfg.taskId) :
    s'.records x = s.records x := by
  cases h with
  | reads => rfl
  | updates updates hown => exact records_updateTask_ne cfg updates hx s

theorem writes_updateTask (hown : OwnWrite updates) {reply : TaskStore.UpdateReply}
    (h : updateTask cfg updates s = (reply, s')) :
    Writes cfg s s' := by
  have hstore : s' = (updateTask cfg updates s).2 := by rw [h]
  rw [hstore]
  exact .updates updates hown

theorem writes_updateTerminal (hown : OwnWrite updates) {result : Except String Bool}
    (h : updateTerminal cfg updates s = (result, s')) :
    Writes cfg s s' := by
  rw [store_updateTerminal h]
  exact .updates updates hown

theorem writes_next {pc : Pc ν} {timed : Bool} {choice : Choice ν} {e : Effect ν}
    (h : pc.next cfg timed s choice = some e) : Writes cfg s e.store := by
  have hread : ∀ {e' : Effect ν}, some e' = some e → e'.store = s → Writes cfg s e.store := by
    intro e' heq hstore
    rw [← Option.some.inj heq, hstore]
    exact .reads
  have hterminal : ∀ {e' : Effect ν} {s₁ : Store ν} {result : Except String Bool}
      {updates : List (String × Json ν)}, updateTerminal cfg updates s = (result, s₁) →
      OwnWrite updates → some e' = some e → e'.store = s₁ → Writes cfg s e.store := by
    intro e' s₁ result updates hwrite hown heq hstore
    rw [← Option.some.inj heq, hstore]
    exact writes_updateTerminal hown hwrite
  unfold Pc.next at h
  split at h
  all_goals try first | exact hread h rfl | exact absurd h.symm (Option.some_ne_none _)
  -- the exemption
  · split at h
    · exact hread h rfl
    · exact hread h rfl
    · split at h <;> exact hread h rfl
  -- the resource and the running status
  · obtain rfl := Option.some.inj h
    exact .updates _ ⟨rfl, (Option.some_ne_none _).symm⟩
  · have hown : OwnWrite [("status", (Json.str TaskStatus.running.value : Json ν))] :=
      ⟨rfl, by simp [TaskStatus.value]⟩
    dsimp only at h
    split at h
    · obtain rfl := Option.some.inj h
      exact .updates _ hown
    · obtain rfl := Option.some.inj h
      exact .updates _ hown
  · split at h
    · exact hread h rfl
    · simp at h
  -- the terminal statuses
  all_goals
    split at h
    all_goals
      rename_i hwrite
      exact hterminal hwrite ⟨rfl, by simp [TaskStatus.value]⟩ h rfl

theorem writes_execution {x x' : Execution ν} {choice : Choice ν} {e : Effect ν}
    (h : x.next cfg s choice = some (x', e)) : Writes cfg s e.store := by
  unfold Execution.next at h
  split at h
  · split at h
    · obtain ⟨-, rfl⟩ := Prod.mk.inj (Option.some.inj h)
      exact .reads
    · simp at h
  · obtain ⟨effect, hnext, heq⟩ := Option.map_eq_some_iff.mp h
    obtain ⟨-, rfl⟩ := Prod.mk.inj heq
    exact writes_next hnext

theorem writes_control {s : State ν} {c c' : Control} {store : Store ν}
    (h : c.next cfg s = some (c', store)) : Writes cfg s.store store := by
  have hread : ∀ {c₁ : Control}, some (c₁, s.store) = some (c', store) →
      Writes cfg s.store store := by
    intro c₁ heq
    obtain ⟨-, rfl⟩ := Prod.mk.inj (Option.some.inj heq)
    exact .reads
  unfold Control.next at h
  split at h
  all_goals try first | exact hread h | exact absurd h.symm (Option.some_ne_none _)
  -- the reads that branch on the status
  · split at h <;> exact hread h
  -- the flag
  · have hown : OwnWrite [("cancel_requested", (Json.bool true : Json ν))] :=
      ⟨rfl, (Option.some_ne_none _).symm⟩
    split at h
    all_goals
      rename_i hwrite
      obtain ⟨-, rfl⟩ := Prod.mk.inj (Option.some.inj h)
      exact writes_updateTask hown hwrite
  · split at h <;> exact hread h
  -- the transition
  · obtain ⟨-, rfl⟩ := Prod.mk.inj (Option.some.inj h)
    exact .updates _ ⟨rfl, by simp [TaskStatus.value]⟩
  · split at h
    · simp at h
    · exact hread h
  -- the exemption snapshot
  · obtain ⟨-, rfl⟩ := Prod.mk.inj (Option.some.inj h)
    exact .updates _ ⟨rfl, (Option.some_ne_none _).symm⟩

theorem proceed_eq_some {s s' : State ν} {i : Nat} {choice : Choice ν}
    (h : proceed cfg i choice s = some s') :
    ∃ x x' e, s.executions[i]? = some x ∧ x.next cfg s.store choice = some (x', e) ∧
      s'.store = e.store ∧ s'.executions = s.executions.set i x' ∧
      s'.snapshots = s.snapshots ++ e.row.toList := by
  unfold proceed at h
  split at h
  · simp at h
  · rename_i x hx
    obtain ⟨⟨x', e⟩, hnext, rfl⟩ := Option.map_eq_some_iff.mp h
    exact ⟨x, x', e, hx, hnext, rfl, rfl, rfl⟩

theorem step_store {s s' : State ν} {e : Event ν} (h : step cfg s e = some s') :
    SameGeneration cfg s.store s'.store ∨
      ∃ executionId initialStatus expiry, e.executionId = some executionId ∧
        s'.store = (reopenTask cfg executionId initialStatus expiry s.store).2 := by
  have hsame : s'.store = s.store → SameGeneration cfg s.store s'.store := by
    intro heq
    rw [heq]
    exact .refl cfg s.store
  cases e with
  | execute here timed => exact Or.inl (hsame (begin_store h))
  | proceed i choice =>
    obtain ⟨x, x', e, -, hnext, hstore, -⟩ := proceed_eq_some h
    left
    rw [hstore]
    exact (writes_execution hnext).sameGeneration
  | cancel | terminate | rerun =>
    obtain rfl := Option.some.inj h
    exact Or.inl (hsame rfl)
  | control j =>
    dsimp only [step] at h
    split at h
    · have hstore : s'.store = s.store := by simpa using begin_store h
      exact Or.inl (hsame hstore)
    · obtain ⟨⟨c', store⟩, hnext, rfl⟩ := Option.map_eq_some_iff.mp h
      exact Or.inl (writes_control hnext).sameGeneration
    · simp at h
  | controlFails j =>
    obtain ⟨c, -, rfl⟩ := Option.map_eq_some_iff.mp h
    exact Or.inl (hsame rfl)
  | deadline j =>
    dsimp only [step] at h
    split at h
    · obtain rfl := Option.some.inj h
      exact Or.inl (hsame rfl)
    · simp at h
  | reopenNode j eid =>
    dsimp only [step] at h
    split at h
    · right
      refine ⟨eid, "pending", none, rfl, ?_⟩
      split at h
      all_goals
        rename_i hreopen
        obtain rfl := Option.some.inj h
        exact (congrArg Prod.snd hreopen).symm
    · simp at h
  | reopenTask eid initialStatus expiry =>
    obtain rfl := Option.some.inj h
    exact Or.inr ⟨eid, initialStatus, expiry, rfl, rfl⟩

end

end Orditect.Executor.Proofs
