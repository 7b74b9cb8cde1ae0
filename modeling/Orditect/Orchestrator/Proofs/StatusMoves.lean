import Orditect.Executor.Proofs.Session
import Orditect.Orchestrator.Lifecycle
/-!
# What one `await` does to the status

The writes of the status rely on the order in which the program makes them: at each program
counter of `execute` the status has to be one from which all that the call may still write is
allowed.  What an execution, a cancellation, a rerun and the clock do to the status, as long
as they keep to the state machine, leads to no status that is unsuitable for another call.
-/

namespace Orditect.Orchestrator.Lifecycle.Proofs

open Executor Executor.Proofs Support.LuaJson
open TaskStore (Store getTask field tick)

variable {ν : Type}

/-! ## The statuses -/

/-- What a step does to the status without queueing the task and without opening a
generation. -/
inductive Shift : Option TaskStatus → Option TaskStatus → Prop
  | same (st : Option TaskStatus) : Shift st st
  | expires (st : Option TaskStatus) : Shift st none
  | allowed {a b : TaskStatus} (h : b ∈ a.allowedTransitions) (hb : b ≠ .queued) :
      Shift (some a) (some b)

variable {st st' : Option TaskStatus}

theorem Shift.pending (h : Shift st st') (hst : st ≠ some .pending) : st' ≠ some .pending := by
  cases h with
  | same => exact hst
  | expires => simp
  | @allowed a b h hb => cases a <;> cases b <;> simp_all [TaskStatus.allowedTransitions]

theorem Shift.queued (h : Shift st st') (hst : st ≠ some .queued) : st' ≠ some .queued := by
  cases h with
  | same => exact hst
  | expires => simp
  | @allowed a b h hb => simpa using hb

theorem Shift.running (h : Shift st st') (hqueued : st ≠ some .queued)
    (hrunning : st ≠ some .running) : st' ≠ some .running := by
  cases h with
  | same => exact hrunning
  | expires => simp
  | @allowed a b h hb => cases a <;> cases b <;> simp_all [TaskStatus.allowedTransitions]

variable {cfg : Config} {s s' : Store ν} {word : TaskStatus}

theorem status_of_tracks (h : Tracks cfg s st) :
    status cfg s = st := by
  unfold status
  cases st with
  | none =>
    have hnone : getTask cfg.taskId s = none := h
    simp [field, hnone, TaskStatus.ofField]
  | some w =>
    have hw : field s cfg.taskId "status" = some (.str w.value) := h
    rw [hw, TaskStatus.ofField_value]

theorem lawful_of_tracks (hs : Tracks cfg s st) (hs' : Tracks cfg s' st')
    (h : ∀ a b, st = some a → st' = some b → b ≠ a → b ∈ a.allowedTransitions) :
    Lawful cfg s s' := by
  intro old new hold hnew hne _
  cases st with
  | none =>
    have hnone : getTask cfg.taskId s = none := hs
    simp [field, hnone] at hold
  | some a =>
    cases st' with
    | none =>
      have hnone : getTask cfg.taskId s' = none := hs'
      simp [field, hnone] at hnew
    | some b =>
      have hold' : old = .str a.value := Option.some.inj (hold.symm.trans hs)
      have hnew' : new = .str b.value := Option.some.inj (hnew.symm.trans hs')
      refine ⟨a, b, hold', hnew', h a b rfl rfl ?_⟩
      rintro rfl
      exact hne (hnew'.trans hold'.symm)

theorem Shift.lawful (h : Shift st st') (hs : Tracks cfg s st) (hs' : Tracks cfg s' st') :
    Lawful cfg s s' := by
  apply lawful_of_tracks hs hs'
  intro a b ha hb hne
  cases h with
  | same => exact absurd (Option.some.inj (hb.symm.trans ha)) hne
  | expires => simp at hb
  | allowed h _ =>
    obtain rfl := Option.some.inj ha
    obtain rfl := Option.some.inj hb
    exact h

def overwrite (word : Option TaskStatus) (w : TaskStatus) : TaskStatus :=
  if w.isTerminal then w else word.getD w

theorem overwrite_none (st : Option TaskStatus) : st.map (overwrite none) = st := by
  cases st with
  | none => rfl
  | some w => cases w <;> rfl

theorem shift_cancelled (st : Option TaskStatus) :
    Shift st (st.map (overwrite (some .cancelled))) := by
  cases st with
  | none => exact .same none
  | some w =>
    cases w with
    | pending | queued | running => exact .allowed (by decide) (by decide)
    | succeeded | failed | cancelled => exact .same _

theorem shift_running (h : st ≠ some .pending) :
    Shift st (st.map (overwrite (some .running))) := by
  cases st with
  | none => exact .same none
  | some w =>
    cases w with
    | pending => exact absurd rfl h
    | queued => exact .allowed (by decide) (by decide)
    | running | succeeded | failed | cancelled => exact .same _

theorem shift_decided (hword : word ∈ TaskStatus.running.allowedTransitions)
    (hpending : st ≠ some .pending) (hqueued : st ≠ some .queued) :
    Shift st (st.map (overwrite (some word))) := by
  cases st with
  | none => exact .same none
  | some w =>
    cases w with
    | pending => exact absurd rfl hpending
    | queued => exact absurd rfl hqueued
    | running =>
      refine .allowed hword ?_
      rintro rfl
      simp [TaskStatus.allowedTransitions] at hword
    | succeeded | failed | cancelled => exact .same _

structure Suits (st : Option TaskStatus) (pc : Pc ν) : Prop where
  early : early pc = true → st ≠ some .pending
  deciding : deciding pc = true → st ≠ some .pending ∧ st ≠ some .queued

variable {pc : Pc ν}

theorem Suits.shift (h : Suits st pc) (hshift : Shift st st') : Suits st' pc :=
  ⟨fun hpc => hshift.pending (h.early hpc),
    fun hpc => ⟨hshift.pending (h.deciding hpc).1, hshift.queued (h.deciding hpc).2⟩⟩

theorem Suits.begun (h : Suits st pc) (hpc : Lifecycle.deciding pc = true) (pc' : Pc ν) :
    Suits st pc' :=
  ⟨fun _ => (h.deciding hpc).1, fun _ => h.deciding hpc⟩

theorem suits_idle (hearly : early pc = false) (hdeciding : deciding pc = false) :
    Suits st pc :=
  ⟨fun hpc => by simp [hearly] at hpc, fun hpc => by simp [hdeciding] at hpc⟩

theorem suits_early (hst : st ≠ some .pending) (hpc : early pc = true) :
    Suits st pc := by
  refine ⟨fun _ => hst, fun hdeciding => ?_⟩
  cases pc <;> simp [early, deciding] at hpc hdeciding

theorem suits_begun (hpending : st ≠ some .pending) (hqueued : st ≠ some .queued) (pc : Pc ν) :
    Suits st pc :=
  ⟨fun _ => hpending, fun _ => ⟨hpending, hqueued⟩⟩

section

variable [DecidableEq ν] [LuaNumber ν] {cfg : Config} {s s' : Store ν}

theorem tracks_updateTask (hv : Vocabulary cfg) (hs : Tracks cfg s st)
    (updates : List (String × Json ν)) (word : Option TaskStatus)
    (hword : updates.lookup "status" = word.map fun w => .str w.value) :
    Tracks cfg (updateTask cfg updates s).2 (st.map (overwrite word)) := by
  cases st with
  | none =>
    have hnone : (s.records cfg.taskId).get = none := hs
    have hsame : (updateTask cfg updates s).2 = s := by
      simp [updateTask, TaskStore.taskUpdate, hnone]
    rw [hsame]
    exact hs
  | some w =>
    rcases updateTask_spec hv hs hword with ⟨-, hterm, heq⟩ | ⟨hopen, s', heq, hfield⟩
    · rw [heq, Option.map_some, overwrite, if_pos hterm]
      exact hs
    · have hnew : overwrite word w = word.getD w := by
        unfold overwrite
        split
        · rcases hopen with hsame | hopen
          · exact hsame.symm
          · simp_all
        · rfl
      have hstatus : field s cfg.taskId "status" = some (.str w.value) := hs
      rw [heq, Option.map_some, hnew]
      show field s' cfg.taskId "status" = some (.str (word.getD w).value)
      rw [hfield, hword, hstatus]
      cases word <;> simp

variable {updates : List (String × Json ν)} {row : Option (SnapshotRow ν)} {choice : Choice ν}

theorem tracks_updateTask_other (hv : Vocabulary cfg) (hs : Tracks cfg s st)
    (hother : updates.lookup "status" = none) :
    Tracks cfg (updateTask cfg updates s).2 st := by
  have htracks := tracks_updateTask hv hs updates none hother
  rwa [overwrite_none] at htracks

/-! ## The executions -/

def Keeps (cfg : Config) (st : Option TaskStatus) (e : Effect ν) : Prop :=
  ∃ st', Tracks cfg e.store st' ∧ Shift st st' ∧ Suits st' e.pc

omit [DecidableEq ν] [LuaNumber ν] in
theorem keeps_read (hs : Tracks cfg s st) {e : Effect ν} (h : some ⟨pc, s, row⟩ = some e)
    (hpc : Suits st pc) : Keeps cfg st e := by
  obtain rfl := Option.some.inj h
  exact ⟨st, hs, .same st, hpc⟩

variable {timed : Bool} {e : Effect ν}

theorem keeps_writeRunning (hv : Vocabulary cfg) (hs : Tracks cfg s st) (hst : st ≠ some .pending)
    (hstore : e.store = (updateTask cfg [("status", .str TaskStatus.running.value)] s).2) :
    Keeps cfg st e := by
  have htracks := tracks_updateTask hv hs
    [("status", (.str TaskStatus.running.value : Json ν))] (some .running) rfl
  have hshift := shift_running hst
  -- after the write the record is neither pending nor queued, whatever the reply was
  have hsuits : ∀ pc : Pc ν, Suits (st.map (overwrite (some .running))) pc := by
    apply suits_begun (hshift.pending hst)
    cases st with
    | none => simp
    | some w => cases w <;> simp [overwrite, TaskStatus.isTerminal]
  exact ⟨_, hstore ▸ htracks, hshift, hsuits _⟩

theorem keeps_terminal (hv : Vocabulary cfg) (hs : Tracks cfg s st)
    (hshift : Shift st (st.map (overwrite (some word))))
    (hword : updates.lookup "status" = some (.str word.value)) {result : Except String Bool}
    (hwrite : updateTerminal cfg updates s = (result, s')) (h : some ⟨pc, s', row⟩ = some e)
    (hpc : Suits st pc) :
    Keeps cfg st e := by
  obtain rfl := Option.some.inj h
  obtain rfl := store_updateTerminal hwrite
  exact ⟨_, tracks_updateTask hv hs updates (some word) hword, hshift, hpc.shift hshift⟩

omit [DecidableEq ν] [LuaNumber ν] in
theorem suits_afterSnapshot (shielded terminal : Bool)
    (h : terminal = false → st ≠ some .pending ∧ st ≠ some .queued) :
    Suits st (afterSnapshot shielded terminal : Pc ν) := by
  cases terminal with
  | true => exact suits_idle rfl rfl
  | false => exact suits_begun (h rfl).1 (h rfl).2 _

theorem keeps_next (hv : Vocabulary cfg) (hs : Tracks cfg s st) (hpc : Suits st pc)
    (horderly : failsEarly cfg s pc choice = true → st ≠ some .queued)
    (h : pc.next cfg timed s choice = some e) : Keeps cfg st e := by
  have hread : ∀ {pc' : Pc ν} {row : Option (SnapshotRow ν)}, some ⟨pc', s, row⟩ = some e →
      Suits st pc' → Keeps cfg st e := fun heq hpc' => keeps_read hs heq hpc'
  have hearly : ∀ {pc' : Pc ν}, early pc = true → early pc' = true →
      some ⟨pc', s, none⟩ = some e → Keeps cfg st e :=
    fun hpc₀ hpc' heq => hread heq (suits_early (hpc.early hpc₀) hpc')
  have hbegun : ∀ {pc' : Pc ν}, deciding pc = true → some ⟨pc', s, none⟩ = some e →
      Keeps cfg st e := fun hpc₀ heq => hread heq (hpc.begun hpc₀ _)
  unfold Pc.next at h
  split at h
  -- a place that only reads: what is left is early, undecided or idle as before
  all_goals try exact hearly rfl rfl h
  all_goals try exact hbegun rfl h
  all_goals try exact hread h (suits_idle rfl rfl)
  -- the checks before the resource
  · split at h
    · exact hread h (suits_idle rfl rfl)
    · exact hearly rfl (early_afterCheck cfg) h
  · exact hearly rfl (early_afterCheck cfg) h
  · exact hearly rfl (early_ite rfl (early_afterReuse cfg)) h
  · exact hearly rfl (early_afterReuse cfg) h
  · split at h
    · exact hread h (suits_idle rfl rfl)
    · exact hearly rfl (early_afterReuse cfg) h
  · exact hearly rfl (early_afterReuse cfg) h
  -- the exemption and the resource
  · split at h
    · exact hearly rfl rfl h
    · exact hearly rfl rfl h
    · rename_i snapshot hnonnull hsnapshot
      split at h
      · exact hearly rfl rfl h
      · exact hearly rfl rfl h
      · rename_i hunreadable
        exact hread h (suits_begun (hpc.early rfl)
          (horderly (by simp [failsEarly, hsnapshot, hunreadable])) _)
  · exact hearly rfl (early_ite rfl rfl) h
  · exact hread h (suits_begun (hpc.early rfl) (horderly rfl) _)
  · obtain rfl := Option.some.inj h
    exact ⟨st, tracks_updateTask_other hv hs rfl, .same st, suits_early (hpc.early rfl) rfl⟩
  -- the running status
  · dsimp only at h
    split at h
    all_goals
      obtain rfl := Option.some.inj h
      exact keeps_writeRunning hv hs (hpc.early rfl) rfl
  · exact hread h (suits_begun (hpc.early rfl) (horderly rfl) _)
  -- the body and what follows its return
  · split at h
    · exact hbegun rfl h
    · simp at h
  · split at h
    all_goals
      rename_i hwrite
      exact keeps_terminal hv hs (shift_cancelled st) rfl hwrite h (hpc.begun rfl _)
  · obtain ⟨hpending, hqueued⟩ := hpc.deciding rfl
    split at h
    all_goals
      rename_i hwrite
      exact keeps_terminal hv hs (shift_decided (by decide) hpending hqueued) rfl hwrite h
        (hpc.begun rfl _)
  -- the finalisation of a failure
  · split at h
    all_goals
      rename_i hwrite
      exact keeps_terminal hv hs (shift_cancelled st) rfl hwrite h (suits_idle rfl rfl)
  · obtain ⟨hpending, hqueued⟩ := hpc.deciding rfl
    split at h
    all_goals
      rename_i hwrite
      exact keeps_terminal hv hs (shift_decided (by decide) hpending hqueued) rfl hwrite h
        (hpc.begun rfl _)
  -- the finalisation of a cancellation
  · split at h
    all_goals
      rename_i hwrite
      exact keeps_terminal hv hs (shift_cancelled st) rfl hwrite h (suits_idle rfl rfl)
  -- the snapshot and the hook
  · refine hread h ⟨fun hpc' => by simp [early] at hpc', fun hpc' => hpc.deciding ?_⟩
    simpa [deciding, snapshotRow] using hpc'
  iterate 3
    · exact hread h (suits_afterSnapshot _ _ fun hrow => hpc.deciding (by simp [deciding, hrow]))
  · simp at h

omit [DecidableEq ν] [LuaNumber ν] in
theorem Suits.interrupted (h : Suits st pc) : Suits st pc.interrupted := by
  unfold Pc.interrupted
  split
  · exact suits_idle rfl rfl
  · exact suits_idle rfl rfl
  · split
    · exact h
    · exact suits_idle rfl rfl

theorem keeps_execution (hv : Vocabulary cfg) (hs : Tracks cfg s st) {x x' : Execution ν}
    (hx : Suits st x.pc) (horderly : failsEarly cfg s x.pc choice = true → st ≠ some .queued)
    (h : x.next cfg s choice = some (x', e)) : x'.pc = e.pc ∧ Keeps cfg st e := by
  unfold Execution.next at h
  split at h
  · split at h
    · obtain ⟨rfl, rfl⟩ := Prod.mk.inj (Option.some.inj h)
      exact ⟨rfl, st, hs, .same st, hx.interrupted⟩
    · simp at h
  · obtain ⟨effect, hnext, heq⟩ := Option.map_eq_some_iff.mp h
    obtain ⟨rfl, rfl⟩ := Prod.mk.inj heq
    exact ⟨rfl, keeps_next hv hs hx horderly hnext⟩

theorem shift_control (hv : Vocabulary cfg) {s : Executor.State ν} (hs : Tracks cfg s.store st)
    {c c' : Control} {store : Store ν} (h : c.next cfg s = some (c', store)) :
    ∃ st', Tracks cfg store st' ∧ Shift st st' := by
  have hread : ∀ {c₁ : Control}, some (c₁, s.store) = some (c', store) →
      ∃ st', Tracks cfg store st' ∧ Shift st st' := by
    intro c₁ heq
    obtain ⟨-, rfl⟩ := Prod.mk.inj (Option.some.inj heq)
    exact ⟨st, hs, .same st⟩
  unfold Control.next at h
  split at h
  all_goals try first | exact hread h | exact absurd h.symm (Option.some_ne_none _)
  · split at h <;> exact hread h
  -- the flag
  · have htracks := tracks_updateTask_other hv hs
      (show [("cancel_requested", (.bool true : Json ν))].lookup "status" = none from rfl)
    split at h
    all_goals
      rename_i hwrite
      rw [hwrite] at htracks
      obtain ⟨-, rfl⟩ := Prod.mk.inj (Option.some.inj h)
      exact ⟨st, htracks, .same st⟩
  · split at h <;> exact hread h
  -- the transition
  · obtain ⟨-, rfl⟩ := Prod.mk.inj (Option.some.inj h)
    exact ⟨_, tracks_updateTask hv hs _ (some .cancelled) rfl, shift_cancelled st⟩
  · split at h
    · simp at h
    · exact hread h
  -- the exemption snapshot
  · obtain ⟨-, rfl⟩ := Prod.mk.inj (Option.some.inj h)
    exact ⟨st, tracks_updateTask_other hv hs rfl, .same st⟩

end

theorem shift_tick (hs : Tracks cfg s st) (ms : Nat) :
    ∃ st', Tracks cfg (tick ms s) st' ∧ Shift st st' := by
  rcases TaskStore.Proofs.shrinks_tick ms s cfg.taskId with hkeep | hgone
  · refine ⟨st, ?_, .same st⟩
    cases st with
    | none =>
      have hnone : getTask cfg.taskId s = none := hs
      show getTask cfg.taskId (tick ms s) = none
      rw [← hnone]
      unfold getTask
      rw [hkeep]
    | some w => exact (TaskStore.Proofs.field_congr hkeep "status").trans hs
  · refine ⟨none, ?_, .expires st⟩
    show getTask cfg.taskId (tick ms s) = none
    simp [getTask, hgone]

end Orditect.Orchestrator.Lifecycle.Proofs
