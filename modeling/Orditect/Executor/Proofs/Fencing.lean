import Orditect.Executor.Proofs.Writes
/-!
# Executions and generations

No write of `execute` names the generation it is meant for.  What keeps a call from
writing into a later one is that the later one has not begun: an update never changes the
execution id of a record, so as long as no reopening overtakes a call that may still
write, the record it writes is the one it began with.
-/

namespace Orditect.Executor.Proofs

open Support.LuaJson Support.Transition
open TaskStore (Store field)

variable {ν : Type} [DecidableEq ν] [LuaNumber ν]

/-! ## What the scripts do to the execution id -/

def KeepsGeneration (cfg : Config) (s s' : Store ν) : Prop :=
  ∀ g, field s cfg.taskId "execution_id" = some (.str g) →
    field s' cfg.taskId "execution_id" = some (.str g)

omit [DecidableEq ν] [LuaNumber ν] in
theorem KeepsGeneration.refl (cfg : Config) (s : Store ν) : KeepsGeneration cfg s s :=
  fun _ h => h

omit [DecidableEq ν] [LuaNumber ν] in
theorem SameGeneration.keeps {cfg : Config} {s s' : Store ν} (h : SameGeneration cfg s s') :
    KeepsGeneration cfg s s' :=
  fun g hg => (h.id g).mpr hg

variable {cfg : Config}

omit [DecidableEq ν] in
theorem reopenTask_of_not_terminal {s : Store ν}
    (h : TaskStore.isTerminal cfg.storage
      (Json.orEmpty (field s cfg.taskId "status")) = false) (executionId initialStatus : String)
    (expiry : Option Int) :
    (reopenTask cfg executionId initialStatus expiry s).2 = s := by
  unfold reopenTask TaskStore.taskReopen
  split
  · rfl
  · rename_i current hcur
    have hstatus : field s cfg.taskId "status" = current "status" := by
      simp [field, TaskStore.getTask, hcur]
    rw [hstatus] at h
    simp [h]

/-! ## One call -/

/-- An id the call holds for a later row is the one of generation `g`, and a
finalisation writes terminal rows only. -/
def Carries (g : String) : Pc ν → Prop
  | .finalizeCancel executionId => truthy (some executionId) = true → executionId = .str g
  | .readSnapshot shielded request =>
    (truthy (some request.executionId) = true → request.executionId = .str g) ∧
      (shielded = true → request.terminal = true)
  | .writeSnapshot shielded row =>
    row.executionId = .str g ∧ (shielded = true → row.terminal = true)
  | _ => True

/-- The call carries its generation, and that is the one of the record unless the call is
fenced. -/
structure CallSound (cfg : Config) (s : Store ν) (g : String) (pc : Pc ν) : Prop where
  carries : Carries g pc
  current : pc.fenced = false → field s cfg.taskId "execution_id" = some (.str g)

structure Fenced (cfg : Config) (s : Store ν) (g : String) (pc : Pc ν) (e : Effect ν) : Prop where
  carries : Carries g e.pc
  stays : pc.fenced = true → e.pc.fenced = true ∧ e.store = s
  keeps : KeepsGeneration cfg s e.store
  row : ∀ row ∈ e.row, row.executionId = .str g

section Next

variable {timed : Bool} {s s' : Store ν} {g : String} {pc pc' : Pc ν} {choice : Choice ν}
  {e : Effect ν}

theorem carries_ite {c : Prop} [Decidable c] {a b : Pc ν} (ha : Carries g a) (hb : Carries g b) :
    Carries g (if c then a else b) := by
  split
  · exact ha
  · exact hb

theorem carries_afterReuse (cfg : Config) : Carries g (afterReuse cfg : Pc ν) :=
  carries_ite trivial trivial

theorem carries_afterCheck (cfg : Config) : Carries g (afterCheck cfg : Pc ν) :=
  carries_ite (carries_afterReuse cfg) trivial

theorem carries_afterSnapshot (shielded terminal : Bool) :
    Carries g (afterSnapshot shielded terminal : Pc ν) :=
  carries_ite trivial trivial

theorem carries_request (shielded : Bool) (status : TaskStatus) (error : Option String) :
    Carries g (.readSnapshot shielded
      { status := status, terminal := true, error := error } : Pc ν) :=
  ⟨by simp [truthy], fun _ => rfl⟩

theorem fenced_readSnapshot {shielded : Bool} {request : SnapshotRequest ν}
    (hpc : CallSound cfg s g (.readSnapshot shielded request)) :
    Fenced cfg s g (.readSnapshot shielded request)
      ⟨.writeSnapshot shielded (snapshotRow cfg request s), s, none⟩ where
  carries := by
    refine ⟨?_, hpc.carries.2⟩
    dsimp only [snapshotRow]
    split
    · rename_i hcaptured
      exact hpc.carries.1 hcaptured
    · rename_i hread
      -- the id is read off the record, so the call is not fenced
      have hcurrent := hpc.current (by simp [Pc.fenced, hread])
      simp [hcurrent]
  stays h := by
    simp only [Pc.fenced, Bool.and_eq_true] at h ⊢
    exact ⟨h.1, trivial⟩
  keeps := .refl cfg s
  row := by simp

theorem fenced_afterSnapshot {shielded terminal : Bool} {row : Option (SnapshotRow ν)}
    (hpc : pc.fenced = true → shielded = true) (hterminal : shielded = true → terminal = true)
    (hrow : ∀ r ∈ row, r.executionId = .str g) :
    Fenced cfg s g pc ⟨afterSnapshot shielded terminal, s, row⟩ where
  carries := carries_afterSnapshot shielded terminal
  stays h := by
    have hshielded := hpc h
    simp [afterSnapshot, Pc.fenced, hshielded, hterminal hshielded]
  keeps := .refl cfg s
  row := hrow

/-- What `execute` may do from a sound place, whatever the environment chooses. -/
theorem next_fenced (hpc : CallSound cfg s g pc) (he : pc.next cfg timed s choice = some e) :
    Fenced cfg s g pc e := by
  have hkeeps := (writes_next he).sameGeneration.keeps
  -- a step from a place where the call may still write, and one that adds no row
  have hopen : ∀ {pc' : Pc ν} {s' : Store ν}, pc.fenced = false → some ⟨pc', s', none⟩ = some e →
      Carries g pc' → Fenced cfg s g pc e := by
    intro pc' s' hfenced heq hcarries
    obtain rfl := Option.some.inj heq
    exact ⟨hcarries, by simp [hfenced], hkeeps, by simp⟩
  unfold Pc.next at he
  split at he
  -- most places lead on with nothing carried along
  all_goals try exact hopen rfl he trivial
  all_goals try exact hopen rfl he (carries_ite trivial trivial)
  -- the checks before the resource
  · exact hopen rfl he (carries_ite trivial (carries_afterCheck cfg))
  · exact hopen rfl he (carries_afterCheck cfg)
  · exact hopen rfl he (carries_ite trivial (carries_afterReuse cfg))
  · exact hopen rfl he (carries_ite trivial (carries_afterReuse cfg))
  -- the exemption
  · split at he
    · exact hopen rfl he trivial
    · exact hopen rfl he trivial
    · split at he <;> exact hopen rfl he trivial
  -- the running status
  · dsimp only at he
    split at he
    · exact hopen rfl he ⟨by simp [truthy], by simp⟩
    · exact hopen rfl he trivial
  -- the body and what follows its return
  · split at he
    · exact hopen rfl he trivial
    · simp at he
  · split at he <;> exact hopen rfl he trivial
  · split at he
    · exact hopen rfl he (carries_request false .succeeded none)
    all_goals exact hopen rfl he trivial
  -- the handler of a cancellation
  · apply hopen rfl he
    intro _
    simp [hpc.current rfl]
  · exact hopen rfl he (by simp [Carries, truthy])
  -- the finalisation of a failure
  · split at he
    · exact hopen rfl he (carries_request true .cancelled _)
    · exact hopen rfl he trivial
  · split at he
    · exact hopen rfl he (carries_request true .failed _)
    all_goals exact hopen rfl he trivial
  -- the finalisation of a cancellation, which hands on the id it was given
  · split at he
    · exact hopen rfl he ⟨hpc.carries, fun _ => rfl⟩
    · exact hopen rfl he trivial
  -- the snapshot and the hook
  all_goals try obtain rfl := Option.some.inj he
  · exact fenced_readSnapshot hpc
  · exact fenced_afterSnapshot (fun h => (Bool.and_eq_true_iff.mp h).1) hpc.carries.2 (by simp)
  · exact fenced_afterSnapshot id hpc.carries.2 (by simpa using hpc.carries.1)
  · exact fenced_afterSnapshot id hpc.carries.2 (by simp)
  · exact ⟨trivial, fun _ => ⟨rfl, rfl⟩, .refl cfg s, by simp⟩
  · simp at he

theorem interrupted_fenced (hpc : CallSound cfg s g pc) :
    Fenced cfg s g pc ⟨pc.interrupted, s, none⟩ where
  carries := by
    have hcarries := hpc.carries
    unfold Pc.interrupted
    split
    · trivial
    · trivial
    · exact carries_ite hcarries trivial
  stays h := by
    refine ⟨?_, rfl⟩
    unfold Pc.interrupted
    split
    · rfl
    · rfl
    · rename_i hfinished
      have hshielded : pc.shielded = true := by
        cases pc <;> simp_all [Pc.fenced, Pc.shielded]
      simpa [hshielded] using h
  keeps := .refl cfg s
  row := by simp

theorem Fenced.sound (h : Fenced cfg s g pc e) (hpc : CallSound cfg s g pc) :
    CallSound cfg e.store g e.pc where
  carries := h.carries
  current := by
    intro hopen
    apply h.keeps
    apply hpc.current
    -- a fenced call stays fenced
    by_contra hfenced
    simp [(h.stays (by simpa using hfenced)).1] at hopen

theorem CallSound.keep (hpc : CallSound cfg s g pc) (hkeeps : KeepsGeneration cfg s s') :
    CallSound cfg s' g pc :=
  ⟨hpc.carries, fun hopen => hkeeps g (hpc.current hopen)⟩

theorem execution_next_fenced {x x' : Execution ν} (hx : CallSound cfg s x.birth x.pc)
    (h : x.next cfg s choice = some (x', e)) :
    x'.birth = x.birth ∧ x'.pc = e.pc ∧ Fenced cfg s x.birth x.pc e := by
  unfold Execution.next at h
  split at h
  · split at h
    · obtain ⟨rfl, rfl⟩ := Prod.mk.inj (Option.some.inj h)
      exact ⟨rfl, rfl, interrupted_fenced hx⟩
    · simp at h
  · obtain ⟨e', he', heq⟩ := Option.map_eq_some_iff.mp h
    obtain ⟨rfl, rfl⟩ := Prod.mk.inj heq
    exact ⟨rfl, rfl, next_fenced hx he'⟩

end Next

/-! ## The system -/

def Sound (cfg : Config) (s : State ν) : Prop :=
  ∀ x ∈ s.executions, CallSound cfg s.store x.birth x.pc

section Step

variable {s s' : State ν}

theorem Sound.keep (hs : Sound cfg s) (hexecutions : s'.executions = s.executions)
    (hkeeps : KeepsGeneration cfg s.store s'.store) : Sound cfg s' := by
  intro x hx
  rw [hexecutions] at hx
  exact (hs x hx).keep hkeeps

theorem sound_proceed (hs : Sound cfg s) {i : Nat} {choice : Choice ν}
    (h : proceed cfg i choice s = some s') : Sound cfg s' := by
  obtain ⟨x, x', e, hx, hnext, hstore, hexecutions, -⟩ := proceed_eq_some h
  have hsound := hs x (List.mem_of_getElem? hx)
  obtain ⟨hbirth, hpc, hfenced⟩ := execution_next_fenced hsound hnext
  intro y hy
  rw [hexecutions] at hy
  rw [hstore]
  rcases List.mem_or_eq_of_mem_set hy with hold | rfl
  · exact (hs y hold).keep hfenced.keeps
  · rw [hbirth, hpc]
    exact hfenced.sound hsound

theorem sound_begin (hs : Sound cfg s) {here timed : Bool}
    (h : begin cfg here timed s = some s') : Sound cfg s' := by
  unfold begin at h
  split at h
  · rename_i birth hid
    obtain rfl := Option.some.inj h
    intro x hx
    rcases List.mem_append.mp hx with hold | hnew
    · exact hs x hold
    · obtain rfl := List.mem_singleton.mp hnew
      exact ⟨trivial, fun _ => hid⟩
  · simp at h

theorem sound_reopen (hs : Sound cfg s) {eid initialStatus : String} {expiry : Option Int}
    (hdrained : TaskStore.isTerminal cfg.storage
        (Json.orEmpty (field s.store cfg.taskId "status")) = true →
      ∀ x ∈ s.executions, x.pc.fenced = true)
    (hexecutions : s'.executions = s.executions)
    (hstore : s'.store = (reopenTask cfg eid initialStatus expiry s.store).2) : Sound cfg s' := by
  cases hterminal : TaskStore.isTerminal cfg.storage
      (Json.orEmpty (field s.store cfg.taskId "status")) with
  | false =>
    apply hs.keep hexecutions
    rw [hstore, reopenTask_of_not_terminal hterminal]
    exact .refl cfg s.store
  | true =>
    intro x hx
    rw [hexecutions] at hx
    refine ⟨(hs x hx).carries, fun hopen => ?_⟩
    simp [hdrained hterminal x hx] at hopen

theorem sound_step (hs : Sound cfg s) {e : Event ν} (hdrained : Drained cfg s e)
    (h : step cfg s e = some s') : Sound cfg s' := by
  cases e with
  | execute here timed => exact sound_begin hs h
  | proceed i choice => exact sound_proceed hs h
  | cancel | terminate | rerun =>
    obtain rfl := Option.some.inj h
    exact hs
  | control j =>
    dsimp only [step] at h
    split at h
    · exact sound_begin (s := { s with controls := s.controls.set j .ended }) hs h
    · obtain ⟨⟨c', store⟩, hnext, rfl⟩ := Option.map_eq_some_iff.mp h
      exact hs.keep rfl (writes_control hnext).sameGeneration.keeps
    · simp at h
  | controlFails j =>
    obtain ⟨c, -, rfl⟩ := Option.map_eq_some_iff.mp h
    exact hs
  | deadline j =>
    dsimp only [step] at h
    split at h
    · obtain rfl := Option.some.inj h
      exact hs
    · simp at h
  | reopenNode j eid =>
    dsimp only [step] at h
    split at h
    · split at h
      · rename_i hreopen
        obtain rfl := Option.some.inj h
        exact sound_reopen hs hdrained rfl (congrArg Prod.snd hreopen).symm
      · rename_i hreopen
        obtain rfl := Option.some.inj h
        exact sound_reopen hs hdrained rfl (congrArg Prod.snd hreopen).symm
    · simp at h
  | reopenTask eid initialStatus expiry =>
    obtain rfl := Option.some.inj h
    exact sound_reopen hs hdrained rfl rfl

end Step

theorem sound_run {store : Store ν} {es : List (Event ν)} {s : State ν}
    (hdrained : Along (step cfg) (Drained cfg) (start store) es)
    (hrun : run (step cfg) (start store) es = some s) : Sound cfg s := by
  apply run_invariant_along (G := Drained cfg) _ _ hdrained hrun
  · intro u e u' hu hG hstep
    exact sound_step hu hG hstep
  · intro x hx
    simp [start] at hx

/-- If a new generation begins only when every call for the old one is fenced, then no
call changes the record of a later generation than its own, and every row it adds is one
of its own. -/
theorem writes_own_generation (cfg : Config) (store : Store ν) (es : List (Event ν))
    (hdrained : Along (step cfg) (Drained cfg) (start store) es) (s s' : State ν)
    (hrun : run (step cfg) (start store) es = some s) (i : Nat) (x : Execution ν)
    (hx : s.executions[i]? = some x) (choice : Choice ν)
    (hstep : step cfg s (.proceed i choice) = some s') :
    (field s.store cfg.taskId "execution_id" ≠ some (.str x.birth) →
      ∀ k ∈ ["status", "result", "error", "progress"],
        field s'.store cfg.taskId k = field s.store cfg.taskId k) ∧
    ∃ rows, s'.snapshots = s.snapshots ++ rows ∧
      ∀ row ∈ rows, row.executionId = .str x.birth := by
  have hsound := sound_run hdrained hrun x (List.mem_of_getElem? hx)
  obtain ⟨y, x', e, hy, hnext, hstore, -, hrows⟩ := proceed_eq_some hstep
  obtain rfl : x = y := Option.some.inj (hx.symm.trans hy)
  obtain ⟨-, -, hfenced⟩ := execution_next_fenced hsound hnext
  constructor
  · intro hlater k _
    have hpast : x.pc.fenced = true := by
      by_contra hopen
      exact hlater (hsound.current (by simpa using hopen))
    rw [hstore, (hfenced.stays hpast).2]
  · exact ⟨e.row.toList, hrows, fun row hrow => hfenced.row row (Option.mem_toList.mp hrow)⟩

def plain : Config := ⟨defaultStorage, "t", false, "cpu", [], false, "ERR"⟩

def queued : Store Int :=
  (TaskStore.taskInit (TaskStore.initialData "2026-01-01T00:00:00+00:00" "queued" none) 604800 "t"
    true "queued" "" "exec-1" ⟨0, fun _ => none, fun _ => none, fun _ => none⟩).2

def cancelledWhileRunning : List (Event Int) :=
  [.execute true false, .proceed 0 .proceed, .proceed 0 .proceed, .proceed 0 .proceed,
    .proceed 0 .proceed, .cancel, .control 0, .control 0, .control 0, .control 0, .control 0]

def reopenedAfterCancel : List (Event Int) :=
  cancelledWhileRunning ++ [.proceed 0 .interrupt, .proceed 0 .proceed, .proceed 0 .proceed,
    .proceed 0 .proceed, .reopenTask "exec-2" "pending" none]

def rowPending : State Int := replay (step plain) (start queued) reopenedAfterCancel

theorem writes_own_generation_cancelled :
    field rowPending.store "t" "execution_id" = some (.str "exec-2") ∧
    field (replay (step plain) rowPending [.proceed 0 .proceed]).store "t" "status" =
      field rowPending.store "t" "status" ∧
    ∃ rows, (replay (step plain) rowPending [.proceed 0 .proceed]).snapshots =
      rowPending.snapshots ++ rows ∧ ∀ row ∈ rows, row.executionId = .str "exec-1" := by
  have hlater : field rowPending.store plain.taskId "execution_id" ≠ some (.str "exec-1") := by
    have hid : field rowPending.store plain.taskId "execution_id" = some (.str "exec-2") := rfl
    simp [hid]
  have hfenced := writes_own_generation plain queued reopenedAfterCancel (by decide) rowPending _
    (run_eq_replay (by decide)) 0
    ⟨"exec-1", true, false, true, .writeSnapshot true ⟨.str "exec-1", none, .cancelled, true, none⟩⟩
    rfl .proceed (step_eq_replay (by decide))
  exact ⟨rfl, hfenced.1 hlater "status" (by simp), hfenced.2⟩

def stalledBody : List (Event Int) :=
  cancelledWhileRunning ++ [.rerun, .deadline 1, .reopenNode 1 "exec-2", .control 1,
    .proceed 1 .proceed, .proceed 1 .proceed, .proceed 0 (.returned (.num 7)),
    .proceed 0 .proceed]

def lateReturn : State Int := replay (step plain) (start queued) stalledBody

/-- The call of the first generation settles the record of the second one with its own
result, and then writes the row of a success into the second generation. -/
theorem settles_later_generation :
    run (step plain) (start queued) stalledBody = some lateReturn ∧
    (lateReturn.executions.map fun x => x.birth) = ["exec-1", "exec-2"] ∧
    field lateReturn.store "t" "execution_id" = some (.str "exec-2") ∧
    field lateReturn.store "t" "status" = some (.str "running") ∧
    field lateReturn.store "t" "result" = none ∧
    (step plain lateReturn (.proceed 0 .proceed)).map
        (fun s => (field s.store "t" "status", field s.store "t" "result")) =
      some (some (.str "succeeded"), some (.num 7)) ∧
    (run (step plain) lateReturn [.proceed 0 .proceed, .proceed 0 .proceed,
      .proceed 0 .proceed]).map
        (fun s => s.snapshots.getLast?) =
      some (some ⟨.str "exec-2", none, .succeeded, true, none⟩) :=
  ⟨run_eq_replay (by decide), rfl, rfl, rfl, rfl, rfl, rfl⟩

end Orditect.Executor.Proofs
