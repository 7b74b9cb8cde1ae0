import Orditect.Executor.Execute
import Orditect.TaskStore.Proofs.Terminal
/-!
# Validated transfers at their commit

`update_task` compares the new status with the one it has read, and the script commits
later without comparing again (it only protects terminal statuses).  A transfer is legal
when it is committed if the status is still the one the pre-check has read.
-/

namespace Orditect.TaskStore.Proofs

open Support.Expiring Support.LuaJson Support.Transition

variable {ν : Type}

def storedStatus (s : Store ν) (t : String) : Option (Json ν) :=
  (getTask t s).map fun record => (record "status").getD (.str "")

/-- The clients, and what the pre-check of each client's last call has read. -/
structure Checking (ν : Type) where
  base : State ν
  seen : Nat → Option (Json ν)

def idleOn (store : Store ν) : Checking ν := ⟨⟨store, fun _ => none, []⟩, fun _ => none⟩

def noteReading (s : Checking ν) : Event ν → Nat → Option (Json ν)
  | .proceed client =>
    match s.base.calls client with
    | some (.validateTransfer t _ _) =>
      Function.update s.seen client (storedStatus s.base.store t)
    | _ => s.seen
  | _ => s.seen

def checkingStep [DecidableEq ν] [LuaNumber ν] (cfg : Config) (s : Checking ν) (e : Event ν) :
    Option (Checking ν) :=
  (step cfg s.base e).map fun base => ⟨base, noteReading s e⟩

def Validates : Event ν → Prop
  | .updateTask _ _ _ _ validate => validate = true
  | .proceed _ | .advance _ | .listTaskIdsByStatus _ _ => True
  | .initializeTask .. | .reopenTask .. | .evict _ => False

/-- A script that writes a status finds the one the pre-check of its call has read. -/
def unraced [DecidableEq ν] (s : Checking ν) : Event ν → Bool
  | .proceed client =>
    match s.base.calls client with
    | some (.updateTask t updates _) =>
      match updates "status", storedStatus s.base.store t, s.seen client with
      | some _, some stored, some read => stored.luaEq read
      | _, _, _ => true
    | _ => true
  | _ => true

/-- Calls on their way are updates, and one that has passed its pre-check is legal for the
status it has read. -/
def CallChecked [DecidableEq ν] [LuaNumber ν] (cfg : Config) (read : Option (Json ν)) :
    Call ν → Prop
  | .validateTransfer _ _ _ => True
  | .updateTask _ updates _ => ∀ v, updates "status" = some v →
      ∃ old, read = some old ∧ (old.pyEq v = true ∨ canTransfer cfg old v = true)
  | .initializeTask .. | .reopenTask .. => False

variable {t : String} {store : Store ν} {v : Json ν} {expiry : Option Int} {updates : Fields ν}
  {a : String}

theorem storedStatus_of_records {s s' : Store ν} (h : s'.records t = s.records t) :
    storedStatus s' t = storedStatus s t := by
  unfold storedStatus getTask
  rw [h]

theorem field_of_storedStatus (h : storedStatus store t = some v) :
    v = (field store t "status").getD (.str "") := by
  unfold storedStatus at h
  obtain ⟨record, hrecord, rfl⟩ := Option.map_eq_some_iff.mp h
  simp [field, hrecord]

variable [DecidableEq ν] [LuaNumber ν] {cfg : Config} {s s' : Checking ν} {e : Event ν}

def AllChecked (cfg : Config) (s : Checking ν) : Prop :=
  ∀ c call, s.base.calls c = some call → CallChecked cfg (s.seen c) call

theorem updates_of_passed {next : Call ν}
    (h : (perform cfg store (.validateTransfer t updates expiry)).1 = some next) :
    ∃ record, getTask t store = some record ∧ transferAllowed cfg record updates = true ∧
      next = .updateTask t updates expiry := by
  dsimp only [perform] at h
  split at h
  · simp at h
  · rename_i record hrecord
    split at h
    · rename_i hallowed
      exact ⟨record, hrecord, hallowed, (Option.some.inj h).symm⟩
    · simp at h

theorem callChecked_of_passed {next : Call ν}
    (h : (perform cfg store (.validateTransfer t updates expiry)).1 = some next) :
    CallChecked cfg (storedStatus store t) next := by
  obtain ⟨record, hrecord, hallowed, rfl⟩ := updates_of_passed h
  intro v hv
  refine ⟨(record "status").getD (.str ""), by simp [storedStatus, hrecord], ?_⟩
  simpa [transferAllowed, hv] using hallowed

theorem allChecked_proceed (hs : AllChecked cfg s) {client : Nat}
    (h : checkingStep cfg s (.proceed client) = some s') : AllChecked cfg s' := by
  obtain ⟨base, hbase, rfl⟩ := Option.map_eq_some_iff.mp h
  obtain ⟨call, hcall, rfl⟩ := step_proceed hbase
  have hchecked := hs client call hcall
  intro c other hc
  by_cases hclient : c = client
  · subst hclient
    simp only [Function.update_self] at hc
    cases call with
    | validateTransfer t updates expiry =>
      simp only [noteReading, hcall, Function.update_self]
      exact callChecked_of_passed hc
    | updateTask t updates expiry => simp [perform] at hc
    | initializeTask | reopenTask => exact hchecked.elim
  · simp only [Function.update_of_ne hclient] at hc
    have hseen : noteReading s (.proceed client) c = s.seen c := by
      cases call <;> simp [noteReading, hcall, Function.update_of_ne hclient]
    simp only [hseen]
    exact hs c other hc

theorem allChecked_step (hs : AllChecked cfg s) (hvalidates : Validates e)
    (h : checkingStep cfg s e = some s') : AllChecked cfg s' := by
  cases e with
  | proceed client => exact allChecked_proceed hs h
  | updateTask client t updates expiry validate =>
    obtain ⟨base, hbase, rfl⟩ := Option.map_eq_some_iff.mp h
    intro c other hc
    rcases calls_begin hbase hc with ⟨rfl, rfl⟩ | ⟨-, hold⟩
    · obtain rfl : validate = true := hvalidates
      split
      · trivial
      · -- without a status there is nothing to check
        rename_i hnone
        intro v hv
        simp [hv] at hnone
    · exact hs c other hold
  | listTaskIdsByStatus status nowMs =>
    obtain ⟨base, hbase, rfl⟩ := Option.map_eq_some_iff.mp h
    simp only [step] at hbase
    split at hbase
    · obtain rfl := Option.some.inj hbase
      exact hs
    · simp at hbase
  | advance ms =>
    obtain ⟨base, hbase, rfl⟩ := Option.map_eq_some_iff.mp h
    obtain rfl := Option.some.inj hbase
    exact hs
  | initializeTask | reopenTask | evict => exact hvalidates.elim

theorem storedStatus_updateTask {x : String} (hold : storedStatus store x = some (.str a))
    (hnew : storedStatus (perform cfg store (.updateTask t updates expiry)).2 x = some v)
    (hne : v ≠ .str a) : x = t ∧ ∃ w, updates "status" = some w ∧ v = w.recode := by
  have hbefore := field_of_storedStatus hold
  have hafter := field_of_storedStatus hnew
  cases effect_perform cfg store (.updateTask t updates expiry) with
  | same h =>
    rw [field_congr (congrFun h x), ← hbefore] at hafter
    exact absurd hafter hne
  | generation x f eid hcall => simp [Call.executionId] at hcall
  | update t' updates' current expiry' hcall hcur hw =>
    obtain ⟨rfl, rfl, rfl⟩ := Call.updateTask.inj hcall
    by_cases hx : x = t
    · subst hx
      have hstatus : field store x "status" = current "status" := by simp [field, hcur]
      rw [hstatus] at hbefore
      rw [hw.field_self] at hafter
      simp only [Fields.recode, Fields.merge] at hafter
      cases hup : updates "status" with
      | some w => exact ⟨rfl, w, rfl, by simpa [hup] using hafter⟩
      | none =>
        apply absurd _ hne
        cases hc : current "status" with
        | none =>
          rw [hc] at hbefore
          rw [hup, hc] at hafter
          exact hafter.trans hbefore.symm
        | some old =>
          -- a string survives the recoding
          obtain rfl : .str a = old := by simpa [hc] using hbefore
          simpa [hup, hc] using hafter
    · rw [hw.field_ne hx, ← hbefore] at hafter
      exact absurd hafter hne

theorem storedStatus_other (hvalidates : Validates e) (hnot : ∀ client, e ≠ .proceed client)
    (h : checkingStep cfg s e = some s') (hold : storedStatus s.base.store t = some (.str a))
    (hnew : storedStatus s'.base.store t = some v) : v = .str a := by
  obtain ⟨base, hbase, rfl⟩ := Option.map_eq_some_iff.mp h
  have hbefore := field_of_storedStatus hold
  have hsame : base.store.records t = s.base.store.records t → v = .str a := by
    intro hrecords
    rw [storedStatus_of_records hrecords, hold] at hnew
    exact (Option.some.inj hnew).symm
  cases e with
  | proceed client => exact absurd rfl (hnot client)
  | updateTask client t updates expiry validate =>
    apply hsame
    rw [(begin_spec hbase).1]
  | listTaskIdsByStatus status nowMs =>
    simp only [step] at hbase
    split at hbase
    · obtain rfl := Option.some.inj hbase
      exact hsame rfl
    · simp at hbase
  | advance ms =>
    obtain rfl := Option.some.inj hbase
    rcases shrinks_tick ms s.base.store t with hkeep | hgone
    · exact hsame hkeep
    · simp [storedStatus, getTask, hgone] at hnew
  | initializeTask | reopenTask | evict => exact hvalidates.elim

theorem legal_at_commit {client : Nat} (hs : AllChecked cfg s)
    (hunraced : unraced s (.proceed client) = true)
    (h : checkingStep cfg s (.proceed client) = some s')
    (hold : storedStatus s.base.store t = some (.str a))
    (hnew : storedStatus s'.base.store t = some v) (hne : v ≠ .str a) :
    canTransfer cfg (.str a) v = true := by
  obtain ⟨base, hbase, rfl⟩ := Option.map_eq_some_iff.mp h
  obtain ⟨call, hcall, rfl⟩ := step_proceed hbase
  have hchecked := hs client call hcall
  cases call with
  | initializeTask | reopenTask => exact hchecked.elim
  | validateTransfer x updates expiry =>
    -- the pre-check writes nothing
    have hstore : (perform cfg s.base.store (.validateTransfer x updates expiry)).2
        = s.base.store := by
      dsimp only [perform]
      split
      · rfl
      · split <;> rfl
    simp only [hstore, hold, Option.some.injEq] at hnew
    exact absurd hnew.symm hne
  | updateTask x updates expiry =>
    obtain ⟨rfl, w, hw, rfl⟩ := storedStatus_updateTask hold hnew hne
    obtain ⟨old, hseen, hlegal⟩ := hchecked w hw
    have hread : old = .str a := by
      apply Json.eq_of_luaEq_str
      simpa [unraced, hcall, hw, hold, hseen] using hunraced
    subst hread
    rcases hlegal with heq | hcan
    · rw [Json.eq_of_pyEq_str heq] at hne
      simp at hne
    · cases w with
      | str b => simpa using hcan
      | _ => simp [canTransfer] at hcan

/-- In every run of validated updates, a committed change of a status is in the table if
the script still finds the status its pre-check has read. -/
theorem transfer_legal_unraced (cfg : Config) (store : Store ν) (es : List (Event ν))
    (hvalidates : ∀ e ∈ es, Validates e)
    (s s' : Checking ν) (hrun : run (checkingStep cfg) (idleOn store) es = some s) (e : Event ν)
    (he : Validates e) (hunraced : unraced s e = true) (hstep : checkingStep cfg s e = some s')
    (t a : String) (v : Json ν) (hold : storedStatus s.base.store t = some (.str a))
    (hnew : storedStatus s'.base.store t = some v) (hne : v ≠ .str a) :
    canTransfer cfg (.str a) v = true := by
  have hchecked : AllChecked cfg s := by
    apply run_invariant_mem _ _ hvalidates hrun
    · intro u e u' hu hG hstep
      exact allChecked_step hu hG hstep
    · intro c call hc
      simp [idleOn] at hc
  by_cases hproceed : ∃ client, e = .proceed client
  · obtain ⟨client, rfl⟩ := hproceed
    exact legal_at_commit hchecked hunraced hstep hold hnew hne
  · have hother := storedStatus_other he (fun c hc => hproceed ⟨c, hc⟩) hstep hold hnew
    exact absurd hother hne

def pendingStore : Store Int :=
  (taskInit (initialData "2026-01-01T00:00:00+00:00" "pending" none) 600 "t" true "pending" ""
    "exec-1" (start 0).store).2

def serially (client : Nat) (word : String) : List (Event Int) :=
  [.updateTask client "t" (setStatus word) none true, .proceed client, .proceed client]

theorem transfer_legal_unraced_serial :
    canTransfer Executor.defaultStorage (.str "queued") (.str "running" : Json Int) = true := by
  refine transfer_legal_unraced Executor.defaultStorage pendingStore
    (serially 0 "queued" ++ [.updateTask 1 "t" (setStatus "running") none true, .proceed 1]) ?_
    _ _ (run_eq_replay (by decide)) (.proceed 1) trivial (by decide)
    (step_eq_replay (by decide)) "t" "queued" (.str "running") rfl rfl (by simp)
  simp [serially, Validates]

def overtaken : List (Event Int) :=
  [.updateTask 0 "t" (setStatus "queued") none true, .proceed 0] ++ serially 1 "queued" ++
    serially 1 "running"

/-- Its commit takes the running record back to queued, which is not in the table. -/
theorem transfer_overtaken :
    (∀ e ∈ overtaken, Validates e) ∧
      ∃ s s' : Checking Int,
        run (checkingStep Executor.defaultStorage) (idleOn pendingStore) overtaken = some s ∧
        checkingStep Executor.defaultStorage s (.proceed 0) = some s' ∧
        storedStatus s.base.store "t" = some (.str "running") ∧
        storedStatus s'.base.store "t" = some (.str "queued") ∧
        canTransfer Executor.defaultStorage (.str "running") (.str "queued" : Json Int) =
          false := by
  refine ⟨by simp [overtaken, serially, Validates], _, _, run_eq_replay (by decide),
    step_eq_replay (by decide), rfl, rfl, by decide⟩

end Orditect.TaskStore.Proofs
