import Orditect.Executor.Proofs.Completion
import Orditect.Recovery.Service
import Orditect.Snapshot.Proofs.Tree
import Orditect.TaskStore.Proofs.Generations
/-!
# What a recovery reopens and starts

The loop of `_dispatch` reopens a task to rerun as often as the tree lists it, and only while
its record is terminal.  So each of them gets one generation and one execution exactly if its
snapshots are of one step and its record is terminal.
-/

namespace Orditect.Recovery.Proofs

open Support.LuaJson Support.Transition
open Executor (Choice Execution Pc)
open Executor.Proofs (Open)
open Snapshot (Memory)
open TaskStore (Store field getTask tick)
open TaskStore.Proofs (terminalNow)

variable {ν : Type}

/-! ## The plan -/

theorem makePlan_eq (decision : String → ReuseDecision) (treeIds : List String) (t : String) :
    makePlan decision treeIds t = if t ∈ treeIds then some (decision t) else none := by
  have hfold : ∀ (ids : List String) (plan : String → Option ReuseDecision),
      ids.foldl (fun plan tid => Function.update plan tid (some (decision tid))) plan t =
        if t ∈ ids then some (decision t) else plan t := by
    intro ids
    induction ids with
    | nil => simp
    | cons x ids ih =>
      intro plan
      rw [List.foldl_cons, ih]
      by_cases hx : t = x
      · subst hx
        simp
      · simp [hx]
  exact hfold treeIds fun _ => none

def reruns (plan : String → Option ReuseDecision) (t : String) : Bool := plan t == some .rerun

variable {t : String} {store : Store ν} {e : Event ν} {rest : List String}

theorem reruns_iff {plan : String → Option ReuseDecision} :
    reruns plan t = true ↔ plan t = some .rerun := by
  simp [reruns]

/-! ## The steps -/

structure Fresh (cfg : Executor.Config) (s : Store ν) : Prop where
  isOpen : Open cfg s
  id : ∃ eid, field s cfg.taskId "execution_id" = some (.str eid)

theorem reopen_of_terminalNow [LuaNumber ν] {service : Service}
    (hlife : 0 < service.executor.storage.defaultExpireTime) (eid : String)
    (hterm : terminalNow service.executor.storage store t = true) :
    ∃ old store', Executor.reopenTask (service.forTask t) eid "pending" none store =
        (.reopened eid old, store') ∧ Fresh (service.forTask t) store' ∧
      ∀ x, x ≠ t → store'.records x = store.records x := by
  have hreopen : Executor.reopenTask (service.forTask t) eid "pending" none store =
      TaskStore.taskReopen service.executor.storage t eid "pending" (-1) store := rfl
  have hexpiry : (none : Option Int) ≠ some 0 := by simp
  obtain ⟨old, hold⟩ := TaskStore.Proofs.reopened_of_terminalNow hlife eid "pending" hexpiry
    hterm
  rcases TaskStore.Proofs.reopen_spec service.executor.storage store t eid "pending" (-1) with
    ⟨current, hcur, -, -, hrewrites⟩ | ⟨hreply, -⟩
  · refine ⟨old, (TaskStore.taskReopen service.executor.storage t eid "pending" (-1) store).2,
      ?_, ?_, fun x hx => hrewrites.records_ne hx⟩
    · rw [hreopen]
      exact Prod.ext hold rfl
    · have hfield := hrewrites.field_self
      refine ⟨⟨⟨.pending, rfl, ?_⟩, ?_⟩, eid, ?_⟩
      · exact (hfield "status").trans (TaskStore.Proofs.status_reopened _ _ _ _ _)
      · refine (hfield "cancel_requested").trans ?_
        simp [Fields.recode, TaskStore.reopened, Fields.set, Fields.unset, Json.recode]
      · exact (hfield "execution_id").trans (TaskStore.Proofs.executionId_reopened _ _ _ _ _)
  · exact absurd hold (hreply eid old)

section

variable [DecidableEq ν] [LuaNumber ν] {service : Service}
  {plan : String → Option ReuseDecision} {s s' : State ν}

inductive Moves (service : Service) (plan : String → Option ReuseDecision) (s : State ν) :
    Event ν → State ν → Prop
  | skips (t : String) (rest : List String) (hids : s.treeIds = t :: rest) (hstage : s.stage = none)
      (hplan : plan t ≠ some .rerun) : Moves service plan s .next s.done
  | enters (t : String) (rest : List String) (hids : s.treeIds = t :: rest)
      (hstage : s.stage = none) (hplan : plan t = some .rerun) :
      Moves service plan s .next { s with stage := some .drain }
  | waits (e : Event ν) (hstage : s.stage = some .drain) :
      Moves service plan s e { s with stage := some .reopen }
  | reopens (t eid : String) (rest : List String) (store : Store ν) (stage : Stage)
      (hids : s.treeIds = t :: rest) (hstage : s.stage = some .reopen)
      (hterm : terminalNow service.executor.storage s.store t = true)
      (hafter : stage = .invalidate ∨ stage = .taskFactory)
      (hothers : ∀ x, x ≠ t → store.records x = s.store.records x) :
      Moves service plan s (.reopen eid)
        { s with store := store, stage := some stage, opened := s.opened ++ [t] }
  | refuses (t eid : String) (rest : List String) (hids : s.treeIds = t :: rest)
      (hstage : s.stage = some .reopen)
      (hopen : terminalNow service.executor.storage s.store t = false) :
      Moves service plan s (.reopen eid) s.done
  | invalidates (e : Event ν) (t : String) (rest : List String) (store : Store ν)
      (hids : s.treeIds = t :: rest) (hstage : s.stage = some .invalidate)
      (hothers : ∀ x, x ≠ t → store.records x = s.store.records x) :
      Moves service plan s e { s with store := store, stage := some .taskFactory }
  | starts (t : String) (rest : List String) (hids : s.treeIds = t :: rest)
      (hstage : s.stage = some .taskFactory) :
      Moves service plan s .taskFactory
        { s.done with
          background := s.background ++ [⟨t, none⟩]
          started := s.started ++ [t] }
  | executes (e : Event ν) (i : Nat) (b b' : Background ν) (store : Store ν)
      (running : String → Bool) (hb : s.background[i]? = some b) (hsame : b'.taskId = b.taskId)
      (hothers : ∀ x, x ≠ b.taskId → store.records x = s.store.records x) :
      Moves service plan s e
        { s with store := store, background := s.background.set i b', running := running }
  | ages (ms : Nat) : Moves service plan s (.advance ms) { s with store := tick ms s.store }

def isDispatch : Event ν → Bool
  | .begin _ | .proceed _ _ | .advance _ => false
  | _ => true

theorem step_of_treeIds (hids : s.treeIds = t :: rest) (he : isDispatch e = true) :
    step service plan s e = dispatch service plan t s s.stage e := by
  cases e <;> simp_all [step, isDispatch]

theorem step_reopen_of_open (hids : s.treeIds = t :: rest) (hstage : s.stage = some .reopen)
    (hopen : terminalNow service.executor.storage s.store t = false) (eid : String) :
    step service plan s (.reopen eid) = some s.done := by
  have hreopen : Executor.reopenTask (service.forTask t) eid "pending" none s.store =
      TaskStore.taskReopen service.executor.storage t eid "pending" (-1) s.store := rfl
  rw [step_of_treeIds hids rfl, hstage]
  simp only [dispatch, hreopen]
  rcases TaskStore.Proofs.reopen_spec service.executor.storage s.store t eid "pending" (-1) with
    ⟨current, hcur, hterm, -⟩ | ⟨hreply, hstore⟩
  · simp [terminalNow, hcur, hterm] at hopen
  · generalize TaskStore.taskReopen service.executor.storage t eid "pending" (-1) s.store =
      result at hreply hstore
    obtain ⟨reply, store⟩ := result
    obtain rfl : store = s.store := hstore
    cases reply with
    | reopened gen old => exact absurd rfl (hreply gen old)
    | _ => rfl

section

variable (hlife : 0 < service.executor.storage.defaultExpireTime)
include hlife

theorem moves_reopen {eid : String} (hids : s.treeIds = t :: rest)
    (hstage : s.stage = some .reopen) (h : step service plan s (.reopen eid) = some s') :
    Moves service plan s (.reopen eid) s' := by
  cases hterm : terminalNow service.executor.storage s.store t with
  | true =>
    obtain ⟨old, store, heq, -, hothers⟩ := reopen_of_terminalNow hlife eid hterm
    rw [step_of_treeIds hids rfl, hstage] at h
    simp only [dispatch, heq] at h
    obtain rfl := Option.some.inj h
    apply Moves.reopens t eid rest store _ hids hstage hterm ?_ hothers
    split
    · exact Or.inl rfl
    · exact Or.inr rfl
  | false =>
    rw [step_reopen_of_open hids hstage hterm] at h
    obtain rfl := Option.some.inj h
    exact .refuses t eid rest hids hstage hterm

theorem moves_dispatch (he : isDispatch e = true) (h : step service plan s e = some s') :
    Moves service plan s e s' := by
  cases hids : s.treeIds with
  | nil => cases e <;> simp_all [step, isDispatch]
  | cons t rest =>
    by_cases hreopen : ∃ eid, e = .reopen eid ∧ s.stage = some .reopen
    · obtain ⟨eid, rfl, hstage⟩ := hreopen
      exact moves_reopen hlife hids hstage h
    · rw [step_of_treeIds hids he] at h
      cases hstage : s.stage with
      | none =>
        cases e with
        | next =>
          rw [hstage] at h
          dsimp only [dispatch] at h
          split at h
          · obtain rfl := Option.some.inj h
            exact .enters t rest hids hstage ‹_›
          · obtain rfl := Option.some.inj h
            exact .skips t rest hids hstage ‹_›
        | _ => simp [hstage, dispatch] at h
      | some stage =>
        rw [hstage] at h
        cases stage with
        | drain =>
          cases e with
          | drained =>
            dsimp only [dispatch] at h
            split at h
            · simp at h
            · obtain rfl := Option.some.inj h
              exact .waits _ hstage
          | deadline =>
            obtain rfl := Option.some.inj h
            exact .waits _ hstage
          | _ => simp [dispatch] at h
        | reopen =>
          cases e with
          | reopen eid => exact absurd ⟨eid, rfl, hstage⟩ hreopen
          | _ => simp [dispatch] at h
        | invalidate =>
          cases e with
          | invalidate =>
            obtain rfl := Option.some.inj h
            exact .invalidates _ t rest _ hids hstage fun x hx =>
              Executor.Proofs.records_updateTask_ne (service.forTask t) _ hx s.store
          | invalidateFails =>
            obtain rfl := Option.some.inj h
            exact .invalidates _ t rest _ hids hstage fun x hx => rfl
          | _ => simp [dispatch] at h
        | taskFactory =>
          cases e with
          | taskFactory =>
            obtain rfl := Option.some.inj h
            exact .starts t rest hids hstage
          | _ => simp [dispatch] at h

theorem moves_step (h : step service plan s e = some s') : Moves service plan s e s' := by
  cases e with
  | begin i =>
    dsimp only [step, begin] at h
    split at h
    · rename_i t hb
      split at h
      · obtain rfl := Option.some.inj h
        exact .executes _ i _ _ s.store _ hb rfl fun x hx => rfl
      · simp at h
    · simp at h
  | proceed i choice =>
    dsimp only [step, proceed] at h
    split at h
    · rename_i t x hb
      obtain ⟨⟨x', e⟩, hnext, rfl⟩ := Option.map_eq_some_iff.mp h
      exact .executes _ i _ _ e.store _ hb rfl fun y hy =>
        (Executor.Proofs.writes_execution hnext).records_ne hy
    · simp at h
  | advance ms =>
    obtain rfl := Option.some.inj h
    exact .ages ms
  | _ => exact moves_dispatch hlife rfl h

end

end

/-! ## The invariant -/

section

variable {service : Service} {plan : String → Option ReuseDecision} {s s' : State ν}
  {treeIds done : List String}

def isPast (s : State ν) : Bool := s.stage == some .invalidate || s.stage == some .taskFactory

def waiting (s : State ν) : List String := if isPast s then s.treeIds.tail else s.treeIds

def current (s : State ν) : List String := if isPast s then s.treeIds.take 1 else []

theorem current_of_past (h : isPast s = true) (hids : s.treeIds = t :: rest) : current s = [t] := by
  simp [current, h, hids]

theorem waiting_of_past (h : isPast s = true) (hids : s.treeIds = t :: rest) :
    waiting s = rest := by
  simp [waiting, h, hids]

theorem current_of_not_past (h : isPast s = false) : current s = [] := by
  simp [current, h]

theorem waiting_of_not_past (h : isPast s = false) : waiting s = s.treeIds := by
  simp [waiting, h]

/-- `done` are the tasks the loop has passed. -/
structure Inv (service : Service) (plan : String → Option ReuseDecision)
    (treeIds done : List String) (s : State ν) : Prop where
  split : treeIds = done ++ s.treeIds
  started : s.started = done.filter (reruns plan)
  opened : s.opened = done.filter (reruns plan) ++ current s
  background : ∀ b ∈ s.background, b.taskId ∈ done.filter (reruns plan)
  head : s.stage ≠ none → ∃ t rest, s.treeIds = t :: rest ∧ plan t = some .rerun
  terminal : ∀ t ∈ waiting s, plan t = some .rerun →
    terminalNow service.executor.storage s.store t = true

def present (treeIds : List String) (s : State ν) : Event ν → Bool
  | .advance ms => treeIds.all fun t => (getTask t (tick ms s.store)).isSome
  | _ => true

theorem waiting_subset (h : t ∈ waiting s) : t ∈ s.treeIds := by
  unfold waiting at h
  split at h
  · exact List.mem_of_mem_tail h
  · exact h

theorem Inv.nodup (hinv : Inv service plan treeIds done s)
    (hnodup : (treeIds.filter (reruns plan)).Nodup) :
    (done.filter (reruns plan) ++ s.treeIds.filter (reruns plan)).Nodup := by
  rwa [hinv.split, List.filter_append] at hnodup

variable {x : String}

theorem Inv.ne_of_done (hinv : Inv service plan treeIds done s)
    (hnodup : (treeIds.filter (reruns plan)).Nodup) {y : String}
    (hx : x ∈ done.filter (reruns plan)) (hy : y ∈ s.treeIds) (hplan : plan y = some .rerun) :
    y ≠ x := by
  rintro rfl
  have hdisjoint := List.disjoint_of_nodup_append (hinv.nodup hnodup)
  exact hdisjoint hx (List.mem_filter.mpr ⟨hy, reruns_iff.mpr hplan⟩)

theorem Inv.ne_head (hinv : Inv service plan treeIds done s)
    (hnodup : (treeIds.filter (reruns plan)).Nodup) (hids : s.treeIds = t :: rest)
    (ht : plan t = some .rerun) (hx : x ∈ rest) (hplan : plan x = some .rerun) : x ≠ t := by
  rintro rfl
  have hrest := (hinv.nodup hnodup).of_append_right
  rw [hids, List.filter_cons_of_pos (reruns_iff.mpr ht), List.nodup_cons] at hrest
  exact hrest.1 (List.mem_filter.mpr ⟨hx, reruns_iff.mpr hplan⟩)

theorem mem_waiting (hids : s.treeIds = t :: rest) (hx : x ∈ rest) : x ∈ waiting s := by
  cases hpast : isPast s with
  | true => rwa [waiting_of_past hpast hids]
  | false =>
    rw [waiting_of_not_past hpast, hids]
    exact List.mem_cons_of_mem t hx

theorem inv_past (hnodup : (treeIds.filter (reruns plan)).Nodup)
    (hinv : Inv service plan treeIds done s) (hids : s.treeIds = t :: rest)
    (hplan : plan t = some .rerun) (hpast : isPast s' = true) (hids' : s'.treeIds = s.treeIds)
    (hstarted : s'.started = s.started) (hopened : s'.opened = done.filter (reruns plan) ++ [t])
    (hback : s'.background = s.background)
    (hothers : ∀ x, x ≠ t → s'.store.records x = s.store.records x) :
    Inv service plan treeIds done s' := by
  have hids'' : s'.treeIds = t :: rest := hids'.trans hids
  refine ⟨?_, ?_, ?_, ?_, fun _ => ⟨t, rest, hids'', hplan⟩, ?_⟩
  · rw [hids']
    exact hinv.split
  · rw [hstarted]
    exact hinv.started
  · rw [current_of_past hpast hids'', hopened]
  · rw [hback]
    exact hinv.background
  · rw [waiting_of_past hpast hids'']
    intro x hx hrerun
    have hne := hinv.ne_head hnodup hids hplan hx hrerun
    rw [TaskStore.Proofs.terminalNow_of_records (hothers x hne)]
    exact hinv.terminal x (mem_waiting hids hx) hrerun

theorem inv_done (hinv : Inv service plan treeIds done s) (hids : s.treeIds = t :: rest)
    (hids' : s'.treeIds = s.treeIds.tail) (hstage : s'.stage = none) (hstore : s'.store = s.store)
    (hstarted : s'.started = (done ++ [t]).filter (reruns plan))
    (hopened : s'.opened = (done ++ [t]).filter (reruns plan))
    (hback : ∀ b ∈ s'.background, b.taskId ∈ (done ++ [t]).filter (reruns plan)) :
    Inv service plan treeIds (done ++ [t]) s' := by
  have hpast : isPast s' = false := by simp [isPast, hstage]
  have hrest : s'.treeIds = rest := by rw [hids', hids]; rfl
  refine ⟨?_, hstarted, ?_, hback, fun hne => absurd hstage hne, ?_⟩
  · rw [hinv.split, hids, hrest, List.append_assoc]
    rfl
  · rw [hopened, current_of_not_past hpast, List.append_nil]
  · rw [waiting_of_not_past hpast, hrest, hstore]
    exact fun x hx => hinv.terminal x (mem_waiting hids hx)

theorem inv_step (hnodup : (treeIds.filter (reruns plan)).Nodup)
    (hinv : Inv service plan treeIds done s) (hpresent : present treeIds s e = true)
    (h : Moves service plan s e s') : ∃ done', Inv service plan treeIds done' s' := by
  -- the head of the list, while the loop is at it
  have hhead : ∀ {t : String} {rest : List String} {stage : Stage}, s.treeIds = t :: rest →
      s.stage = some stage → plan t = some .rerun := by
    intro t rest stage hids hstage
    obtain ⟨t', rest', hids', hplan⟩ := hinv.head (by simp [hstage])
    obtain ⟨rfl, -⟩ := List.cons.inj (hids.symm.trans hids')
    exact hplan
  have hopened := hinv.opened
  have hterminal := hinv.terminal
  cases h with
  | skips t rest hids hstage hplan =>
    have hskip : (done ++ [t]).filter (reruns plan) = done.filter (reruns plan) := by
      simp [List.filter_append, reruns, hplan]
    rw [current_of_not_past (by simp [isPast, hstage]), List.append_nil, ← hskip] at hopened
    refine ⟨done ++ [t], inv_done hinv hids rfl rfl rfl ?_ hopened ?_⟩
    · rw [hskip]
      exact hinv.started
    · rw [hskip]
      exact hinv.background
  | enters t rest hids hstage hplan =>
    have hpast : isPast s = false := by simp [isPast, hstage]
    rw [current_of_not_past hpast] at hopened
    rw [waiting_of_not_past hpast] at hterminal
    exact ⟨done, hinv.split, hinv.started, hopened, hinv.background,
      fun _ => ⟨t, rest, hids, hplan⟩, hterminal⟩
  | waits e hstage =>
    have hpast : isPast s = false := by simp [isPast, hstage]
    rw [current_of_not_past hpast] at hopened
    rw [waiting_of_not_past hpast] at hterminal
    exact ⟨done, hinv.split, hinv.started, hopened, hinv.background,
      fun _ => hinv.head (by simp [hstage]), hterminal⟩
  | reopens t eid rest store stage hids hstage hterm hafter hothers =>
    rw [current_of_not_past (by simp [isPast, hstage]), List.append_nil] at hopened
    refine ⟨done, inv_past hnodup hinv hids (hhead hids hstage) ?_ rfl rfl ?_ rfl hothers⟩
    · rcases hafter with rfl | rfl <;> rfl
    · rw [← hopened]
  | refuses t eid rest hids hstage hopen =>
    rw [waiting_of_not_past (by simp [isPast, hstage]), hids] at hterminal
    have hterm := hterminal t List.mem_cons_self (hhead hids hstage)
    simp [hopen] at hterm
  | invalidates e t rest store hids hstage hothers =>
    rw [current_of_past (by simp [isPast, hstage]) hids] at hopened
    exact ⟨done, inv_past hnodup hinv hids (hhead hids hstage) rfl rfl rfl hopened rfl hothers⟩
  | starts t rest hids hstage =>
    have hkeep : (done ++ [t]).filter (reruns plan) = done.filter (reruns plan) ++ [t] := by
      simp [List.filter_append, reruns, hhead hids hstage]
    rw [current_of_past (by simp [isPast, hstage]) hids, ← hkeep] at hopened
    refine ⟨done ++ [t], inv_done hinv hids rfl rfl rfl ?_ hopened ?_⟩
    · rw [hkeep, ← hinv.started]
    · intro b hb
      rw [hkeep]
      rcases List.mem_append.mp hb with hb | hb
      · exact List.mem_append_left _ (hinv.background b hb)
      · rw [List.mem_singleton.mp hb]
        simp
  | executes e i b b' store running hb hsame hothers =>
    have hdone : b.taskId ∈ done.filter (reruns plan) :=
      hinv.background b (List.mem_of_getElem? hb)
    refine ⟨done, hinv.split, hinv.started, hopened, ?_, hinv.head, ?_⟩
    · intro c hc
      rcases List.mem_or_eq_of_mem_set hc with hc | rfl
      · exact hinv.background c hc
      · rwa [hsame]
    · intro x hx hrerun
      have hne := hinv.ne_of_done hnodup hdone (waiting_subset hx) hrerun
      rw [TaskStore.Proofs.terminalNow_of_records (hothers x hne)]
      exact hterminal x hx hrerun
  | ages ms =>
    refine ⟨done, hinv.split, hinv.started, hopened, hinv.background, hinv.head, ?_⟩
    intro x hx hrerun
    have hmem : x ∈ treeIds := by
      rw [hinv.split]
      exact List.mem_append_right _ (waiting_subset hx)
    have hthere : (getTask x (tick ms s.store)).isSome = true :=
      List.all_eq_true.mp hpresent x hmem
    rcases TaskStore.Proofs.shrinks_tick ms s.store x with hsame | hgone
    · rw [TaskStore.Proofs.terminalNow_of_records hsame]
      exact hterminal x hx hrerun
    · simp [getTask, hgone] at hthere

theorem inv_start (plan : String → Option ReuseDecision)
    (hterminal : ∀ t ∈ treeIds, plan t = some .rerun →
      terminalNow service.executor.storage store t = true) :
    Inv service plan treeIds [] (start treeIds store) :=
  ⟨rfl, rfl, rfl, fun _ h => absurd h List.not_mem_nil, fun h => absurd rfl h, hterminal⟩

theorem inv_run [DecidableEq ν] [LuaNumber ν]
    (hlife : 0 < service.executor.storage.defaultExpireTime)
    (hnodup : (treeIds.filter (reruns plan)).Nodup)
    (hterminal : ∀ t ∈ treeIds, plan t = some .rerun →
      terminalNow service.executor.storage store t = true) {es : List (Event ν)}
    (hpresent : Along (step service plan) (fun s e => present treeIds s e = true)
      (start treeIds store) es) (h : run (step service plan) (start treeIds store) es = some s) :
    ∃ done, Inv service plan treeIds done s := by
  apply run_invariant_along (I := fun s => ∃ done, Inv service plan treeIds done s) ?_
    ⟨[], inv_start plan hterminal⟩ hpresent h
  rintro s e s' ⟨done, hinv⟩ hthere hstep
  exact inv_step hnodup hinv hthere (moves_step hlife hstep)

/-- One generation and one execution for each task to rerun, no generation for the others. -/
def Exact (plan : String → Option ReuseDecision) (s : State ν) : Prop :=
  ∀ t, (plan t = some .rerun → s.opened.count t = 1 ∧ s.started.count t = 1) ∧
    (plan t = some .reuse → t ∉ s.opened)

theorem exact_of_inv (hnodup : (treeIds.filter (reruns plan)).Nodup)
    (hplan : ∀ t, plan t ≠ none → t ∈ treeIds) (hinv : Inv service plan treeIds done s)
    (hreturned : s.returned = true) : Exact plan s := by
  obtain ⟨hids, hstage⟩ : s.treeIds = [] ∧ s.stage = none := by
    simpa [State.returned] using hreturned
  have hdone : done = treeIds := by
    have hsplit := hinv.split
    rw [hids, List.append_nil] at hsplit
    exact hsplit.symm
  have hopened : s.opened = treeIds.filter (reruns plan) := by
    rw [hinv.opened, current_of_not_past (by simp [isPast, hstage]), List.append_nil, hdone]
  have hstarted : s.started = treeIds.filter (reruns plan) := by
    rw [hinv.started, hdone]
  intro t
  rw [hopened, hstarted]
  constructor
  · intro hrerun
    have hmem : t ∈ treeIds.filter (reruns plan) :=
      List.mem_filter.mpr ⟨hplan t (by simp [hrerun]), reruns_iff.mpr hrerun⟩
    exact ⟨List.count_eq_one_of_mem hnodup hmem, List.count_eq_one_of_mem hnodup hmem⟩
  · intro hreuse hmem
    have hrerun := reruns_iff.mp (List.mem_filter.mp hmem).2
    simp [hreuse] at hrerun

end

end Orditect.Recovery.Proofs
